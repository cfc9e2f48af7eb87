import ZeOS.List
import ZeOS.Practica.Mm

/-!
# The scheduler

`sched.c`, `p_stats.c` and the stack switch of `kernel-utils.S`: the task
array, the two queues threaded through it, round robin, and the switch to
another task.

A `task_union` is a page holding a task's struct and its kernel stack. Of
the stack the model keeps one thing, `epilogue`: which handler the
outermost frame returns through, since that is what runs when the task is
resumed. The `list` field of the struct is kept in `links`, where the queue
heads are nodes as well; `copy_data` of a whole union copies all three.
-/

namespace ZeOS.Practica

/-- The `list_head`s of the scheduler: the two queues and the one in each
task struct. -/
inductive Node where
  | freequeue
  | readyqueue
  | task (s : Slot)
deriving DecidableEq

/-- `enum state_t`. -/
inductive State where
  | run
  | ready
  | blocked
deriving DecidableEq

/-- `struct stats`. -/
structure Stats where
  userTicks : DWord := 0
  systemTicks : DWord := 0
  blockedTicks : DWord := 0
  readyTicks : DWord := 0
  elapsedTotalTicks : DWord := 0
  totalTrans : DWord := 0
  remainingTicks : DWord := 0
deriving DecidableEq

/-- The counters `update_stats` is called with. -/
inductive Counter where
  | userTicks
  | systemTicks
  | readyTicks
deriving DecidableEq

/-- Add to a counter. -/
def Stats.add (st : Stats) (d : DWord) : Counter → Stats
  | .userTicks => { st with userTicks := st.userTicks + d }
  | .systemTicks => { st with systemTicks := st.systemTicks + d }
  | .readyTicks => { st with readyTicks := st.readyTicks + d }

/-- What the outermost frame of a kernel stack returns through: an interrupt
or exception handler, which calls `system_to_user` on its way out, the
system call handler, which does not, or the loop of `cpu_idle`. -/
inductive Epilogue where
  | interruptHandler
  | systemCallHandler
  | cpuIdle
deriving DecidableEq

/-- `struct task_struct`, less `list` and the unused `pag_log_shm`, and with
the bottom of the task's kernel stack. -/
structure TaskStruct where
  pid : ℤ
  /-- The slot whose directory the task points at. -/
  dirPagesBaseAddr : Slot
  registerEsp : DWord
  state : State
  totalQuantum : ℤ
  pStats : Stats
  epilogue : Epilogue
deriving DecidableEq

/-- The scheduler's state. -/
structure Sched where
  links : Links Node
  task : Slot → TaskStruct
  /-- The task whose kernel stack is in use: `current()`. -/
  current : Slot
  idleTask : Slot
  remainingQuantum : ℤ
  globalPid : ℤ
  /-- The slot whose directory `CR3` points at. -/
  cr3 : Slot
  /-- The stack pointer last loaded by `switch_stack`. -/
  esp : DWord
  /-- The values the next calls of `get_ticks` return. -/
  ticks : ℕ → DWord
  /-- Raised when `list_del` is applied to a node that is not linked. -/
  unlinkedDel : Bool
  /-- Raised where the code dereferences a null or meaningless pointer, or an
  `int` overflows. -/
  stuck : Bool

namespace Sched

/-- Change the struct of a task. -/
def modifyTask (s : Sched) (t : Slot) (f : TaskStruct → TaskStruct) : Sched :=
  { s with task := fun u => if u = t then f (s.task u) else s.task u }

/-- `list_add_tail` on the scheduler's nodes. -/
def linkTail (s : Sched) (new head : Node) : Sched :=
  match listAddTail s.links new head with
  | some h => { s with links := h }
  | none => { s with stuck := true }

/-- `list_del` on the scheduler's nodes. -/
def unlink (s : Sched) (entry : Node) : Sched :=
  let s := { s with unlinkedDel := s.unlinkedDel || !listLinked s.links entry }
  match listDel s.links entry with
  | some h => { s with links := h }
  | none => { s with stuck := true }

/-! ## `p_stats.c` -/

/-- One call of `get_ticks`. -/
def getTicks (s : Sched) : DWord × Sched :=
  (s.ticks 0, { s with ticks := fun n => s.ticks (n + 1) })

/-- Charge the time since the task's last update to one of its counters. -/
def updateStats (s : Sched) (t : Slot) (v : Counter) : Sched :=
  let (currentTicks, s) := s.getTicks
  s.modifyTask t (fun c =>
    { c with pStats :=
      { c.pStats.add (currentTicks - c.pStats.elapsedTotalTicks) v with
        elapsedTotalTicks := currentTicks } })

/-- Reset a task's statistics. -/
def initStats (s : Sched) (t : Slot) : Sched :=
  let (elapsed, s) := s.getTicks
  let (remaining, s) := s.getTicks
  s.modifyTask t (fun c =>
    { c with pStats := { elapsedTotalTicks := elapsed, remainingTicks := remaining } })

/-- `user_to_system`. -/
def userToSystem (s : Sched) : Sched := s.updateStats s.current .userTicks

/-- `system_to_user`. -/
def systemToUser (s : Sched) : Sched := s.updateStats s.current .systemTicks

/-! ## `sched.c` -/

/-- The Page Directory of a task, as the slot it belongs to. -/
def getDir (s : Sched) (t : Slot) : Slot := (s.task t).dirPagesBaseAddr

/-- The Page Table of a task, as the slot it belongs to. -/
def getPt (s : Sched) (t : Slot) : Slot := (s.task t).dirPagesBaseAddr

/-- Point a task at the directory of its own position. -/
def allocateDir (s : Sched) (t : Slot) : Sched :=
  s.modifyTask t (fun c => { c with dirPagesBaseAddr := t })

/-- `set_cr3` with a task's directory. -/
def setCr3 (s : Sched) (dir : Slot) : Sched := { s with cr3 := dir }

/-- `current()`. -/
def currentTask (s : Sched) : TaskStruct := s.task s.current

/-- The time quantum of a task. -/
def getQuantum (s : Sched) (t : Slot) : ℤ := (s.task t).totalQuantum

/-- `update_sched_data_rr`. -/
def updateSchedDataRr (s : Sched) : Sched :=
  { s with remainingQuantum := s.remainingQuantum - 1 }

/-- `needs_sched_rr`: whether to switch, with the quantum reloaded when it
has run out and nobody waits. -/
def needsSchedRr (s : Sched) : Bool × Sched :=
  if s.remainingQuantum = 0 ∧ listEmpty s.links .readyqueue = false then (true, s)
  else if s.remainingQuantum = 0 then
    (false, { s with remainingQuantum := s.getQuantum s.current })
  else (false, s)

/-- `update_process_state_rr`. -/
def updateProcessStateRr (s : Sched) (t : Slot) (dst : Option Node) : Sched :=
  let s := if (s.task t).state ≠ .run then s.unlink (.task t) else s
  match dst with
  | some q =>
    let s := s.linkTail (.task t) q
    if q ≠ .readyqueue then s.modifyTask t (fun c => { c with state := .blocked })
    else
      let s := s.updateStats t .systemTicks
      s.modifyTask t (fun c => { c with state := .ready })
  | none => s.modifyTask t (fun c => { c with state := .run })

/-- `switch_stack`: the frame pointer is saved where the first argument
points and the second argument, computed before, becomes the stack
pointer. -/
def switchStack (s : Sched) (ebp : DWord) (newSp : DWord) : Sched :=
  let s := s.modifyTask s.current (fun c => { c with registerEsp := ebp })
  { s with esp := newSp }

/-- `task_switch` and `inner_task_switch`: the new address space, then the
new stack. `ebp` is the frame pointer at the switch. -/
def taskSwitch (s : Sched) (ebp : DWord) (new : Slot) : Sched :=
  let s := s.setCr3 (s.getDir new)
  let s := s.switchStack ebp (s.task new).registerEsp
  { s with current := new }

/-- The second half of `sched_next_rr`: give the CPU to the chosen task. -/
def dispatch (s : Sched) (ebp : DWord) (t : Slot) : Sched :=
  let s := s.modifyTask t (fun c => { c with state := .run })
  let s := { s with remainingQuantum := s.getQuantum t }
  let s := s.updateStats s.current .systemTicks
  let s := s.updateStats t .readyTicks
  let s := s.modifyTask t (fun c =>
    { c with pStats := { c.pStats with totalTrans := c.pStats.totalTrans + 1 } })
  s.taskSwitch ebp t

/-- `sched_next_rr`: the first ready task, or the idle task. -/
def schedNextRr (s : Sched) (ebp : DWord) : Sched :=
  if listEmpty s.links .readyqueue = false then
    match listFirst s.links .readyqueue with
    | some (.task t) => (s.unlink (.task t)).dispatch ebp t
    | _ => { s with stuck := true }
  else s.dispatch ebp s.idleTask

/-- `schedule`, called by every clock tick. -/
def schedule (s : Sched) (ebp : DWord) : Sched :=
  match s.updateSchedDataRr.needsSchedRr with
  | (true, s) => (s.updateProcessStateRr s.current (some .readyqueue)).schedNextRr ebp
  | (false, s) => s

/-- `force_task_switch`. -/
def forceTaskSwitch (s : Sched) (ebp : DWord) : Sched :=
  (s.updateProcessStateRr s.current (some .readyqueue)).schedNextRr ebp

/-! ## Entering and leaving the kernel -/

/-- The kernel is entered on the stack of the current task. -/
def enter (s : Sched) (e : Epilogue) : Sched :=
  s.modifyTask s.current (fun c => { c with epilogue := e })

/-- The kernel is left through the stack of the task that is current by
then. -/
def leave (s : Sched) : Sched :=
  match s.currentTask.epilogue with
  | .interruptHandler => s.systemToUser
  | .systemCallHandler => s
  | .cpuIdle => s

/-! ## Initialization -/

/-- One round of `init_freequeue`. -/
def initFreeTask (s : Sched) (t : Slot) : Sched :=
  (s.modifyTask t (fun c => { c with pid := -1 })).linkTail (.task t) .freequeue

/-- `init_freequeue`. -/
def initFreequeue (s : Sched) : Sched :=
  (List.finRange nrTasks).foldl initFreeTask
    { s with links := initListHead s.links .freequeue }

/-- `init_sched`. -/
def initSched (s : Sched) : Sched :=
  let s := s.initFreequeue
  { s with links := initListHead s.links .readyqueue }

/-- `DEFAULT_QUANTUM`. -/
abbrev defaultQuantum : ℤ := 10

/-- `init_idle`. `taskArray` is the address of the task array, where the
stack prepared for `cpu_idle` lies. -/
def initIdle (taskArray : DWord) (s : Sched) : Sched :=
  match listFirst s.links .freequeue with
  | some (.task c) =>
    let s := s.unlink (.task c)
    let s := s.modifyTask c (fun t => { t with pid := 0, totalQuantum := defaultQuantum })
    let s := s.initStats c
    let s := s.allocateDir c
    let stackTop := taskArray + BitVec.ofNat 32 (c.val * pageSize + 4 * 1022)
    let s := s.modifyTask c (fun t => { t with registerEsp := stackTop, epilogue := .cpuIdle })
    { s with idleTask := c }
  | _ => { s with stuck := true }

/-- `init_task1`, less the call of `set_user_pages`. The kernel is left for
user mode on the stack of this task. -/
def initTask1 (s : Sched) : Sched :=
  match listFirst s.links .freequeue with
  | some (.task c) =>
    let s := s.unlink (.task c)
    let s := s.modifyTask c (fun t =>
      { t with pid := 1, totalQuantum := defaultQuantum, state := .run })
    let s := { s with remainingQuantum := (s.task c).totalQuantum }
    let s := s.initStats c
    let s := s.allocateDir c
    { s.setCr3 (s.getDir c) with current := c }
  | _ => { s with stuck := true }

end Sched

end ZeOS.Practica
