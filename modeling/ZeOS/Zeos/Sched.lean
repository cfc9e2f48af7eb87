import ZeOS.List
import ZeOS.Practica.Utils

/-!
# The scheduler of the zeos kernel

`sched.c` of the kernel in `zeos/`, which came before the one of the
practica. It has three queues, with `blocked` beside the two others, and
each process has a list of its children: `childs` is the head and
`aParentList` the node in the parent's list.

Of `mm.c`, `list.c` and `utils.c` the two kernels share what is used here –
the byte map, the page tables, the copy loop – and the memory is the one of
`ZeOS.Practica.Mm`; this kernel has no shared segments, so its `shmMem` is
never looked at. The layout is another one: the data pages come first.

A `list_del` on a node with null pointers stores zeros at the addresses 0
and 4. Where page 0 is not mapped that is a page fault in the kernel, which
stops the machine; in a forked process it is mapped, to a frame nobody uses.
-/

namespace ZeOS.Zeos

export Practica (Slot Byte DWord Mm PageTable PhysMem Location State PageTableEntry totalPages
  numPagKernel numPagCode numPagData pageSize nrTasks allocFrame freeFrame initFrames setSsPag
  delSsPag getFrame copyData)

/-- `L_USER_START>>12`: the data pages come before the code pages. -/
abbrev pagLogInitData : ℕ := 256
abbrev pagLogInitCode : ℕ := pagLogInitData + numPagData

/-- `QUANTUM`. -/
abbrev quantum : ℤ := 10

/-- The `list_head`s of the queues. -/
inductive Node where
  | freequeue
  | readyqueue
  | blocked
  /-- The `list` of a task. -/
  | task (s : Slot)
deriving DecidableEq

/-- The `list_head`s of the families. -/
inductive Kin where
  /-- The head of a task's list of children. -/
  | childs (s : Slot)
  /-- The node of a task in its parent's list. -/
  | aParentList (s : Slot)
deriving DecidableEq

/-- `task_struct`, less its pointers to `list_head`s and what is saved of the
stack. -/
structure TaskStruct where
  pid : ℤ
  /-- The slot whose directory the task points at. -/
  dirPagesBaseAddr : Slot
  state : State
  quantum : ℤ
  pendingUnblocks : ℤ
  pParent : Option Slot
deriving DecidableEq

/-- The kernel's state. -/
structure Kernel where
  mm : Mm
  links : Links Node
  family : Links Kin
  task : Slot → TaskStruct
  /-- The task whose kernel stack is in use: `current()`. -/
  current : Slot
  idleTask : Slot
  ticksSinceCpu : ℤ
  startingPid : ℤ
  /-- The slot whose directory `CR3` points at. -/
  cr3 : Slot
  /-- Raised when `list_del` is applied to a node that is not linked. -/
  unlinkedDel : Bool
  /-- Raised where the machine stops or the code leaves what the model
  describes. -/
  stuck : Bool

namespace Kernel

/-- Change the struct of a task. -/
def modifyTask (k : Kernel) (t : Slot) (f : TaskStruct → TaskStruct) : Kernel :=
  { k with task := Function.update k.task t (f (k.task t)) }

/-! ## Lists -/

/-- Zeros stored at the addresses 0 to 7. -/
def storeNull (k : Kernel) : Kernel :=
  match k.mm.translate k.cr3 0 with
  | none => { k with stuck := true }
  | some loc =>
    { k with
      mm := { k.mm with
        ram := fun l => if l.1 = loc.1 ∧ l.2 < 8 then 0 else k.mm.ram l }
      stuck := k.stuck || decide (loc.1 ≠ 0) }

/-- `list_add` on the nodes of the queues. -/
def link (k : Kernel) (new head : Node) : Kernel :=
  match listAdd k.links new head with
  | some h => { k with links := h }
  | none => { k with stuck := true }

/-- `list_add_tail` on the nodes of the queues. -/
def linkTail (k : Kernel) (new head : Node) : Kernel :=
  match listAddTail k.links new head with
  | some h => { k with links := h }
  | none => { k with stuck := true }

/-- `list_del` on the nodes of the queues. -/
def unlink (k : Kernel) (entry : Node) : Kernel :=
  let k := { k with unlinkedDel := k.unlinkedDel || !listLinked k.links entry }
  match listDel k.links entry with
  | some h => { k with links := h }
  | none =>
    if k.links entry = ⟨none, none⟩ then k.storeNull else { k with stuck := true }

/-- `list_add_tail` on the nodes of the families. -/
def linkKin (k : Kernel) (new head : Kin) : Kernel :=
  match listAddTail k.family new head with
  | some h => { k with family := h }
  | none => { k with stuck := true }

/-- `list_del` on the nodes of the families. -/
def unlinkKin (k : Kernel) (entry : Kin) : Kernel :=
  match listDel k.family entry with
  | some h => { k with family := h }
  | none =>
    if k.family entry = ⟨none, none⟩ then k.storeNull else { k with stuck := true }

/-- `list_head_to_task_struct`, on the nodes of the queues. -/
def listHeadToTaskStruct : Node → Option Slot
  | .task s => some s
  | _ => none

/-- `list_head_to_task_struct`, on the nodes of the families. -/
def kinToTaskStruct : Kin → Slot
  | .childs s => s
  | .aParentList s => s

/-! ## `sched.c` -/

/-- The Page Table of a task, as the slot it belongs to. -/
def getPt (k : Kernel) (t : Slot) : Slot := (k.task t).dirPagesBaseAddr

/-- Point a task at the directory of its own position. -/
def allocateDir (k : Kernel) (t : Slot) : Kernel :=
  k.modifyTask t (fun c => { c with dirPagesBaseAddr := t })

/-- `set_cr3` with a task's directory. -/
def setCr3 (k : Kernel) (dir : Slot) : Kernel := { k with cr3 := dir }

/-- `update_sched_data_rr`. -/
def updateSchedDataRr (k : Kernel) : Kernel := { k with ticksSinceCpu := k.ticksSinceCpu - 1 }

/-- `needs_sched_rr`. -/
def needsSchedRr (k : Kernel) : Bool × Kernel :=
  if 0 < k.ticksSinceCpu then (false, k)
  else if listEmpty k.links .readyqueue then
    (false, { k with ticksSinceCpu := (k.task k.current).quantum })
  else (true, k)

/-- `update_process_state_rr`. A blocked process that still runs is left
where it is, and a process put into another queue than `readyqueue` keeps its
state. -/
def updateProcessStateRr (k : Kernel) (t : Slot) (dst : Option Node) : Kernel :=
  if (k.task k.current).state ≠ .blocked then
    let k := if (k.task t).state ≠ .run then k.unlink (.task t) else k
    match dst with
    | some q =>
      let k := k.linkTail (.task t) q
      if q = .readyqueue then k.modifyTask t (fun c => { c with state := .ready }) else k
    | none => k.modifyTask t (fun c => { c with state := .run })
  else k

/-- `task_switch`: the new address space and the new stack. -/
def taskSwitch (k : Kernel) (new : Slot) : Kernel :=
  { k.setCr3 (k.getPt new) with current := new }

/-- The second half of `sched_next_rr`: give the CPU to the chosen task. -/
def dispatch (k : Kernel) (t : Slot) : Kernel :=
  let k := k.modifyTask t (fun c => { c with state := .run })
  let k := { k with ticksSinceCpu := (k.task t).quantum }
  k.taskSwitch t

/-- `sched_next_rr`: the first ready task, or the idle task. -/
def schedNextRr (k : Kernel) : Kernel :=
  if listEmpty k.links .readyqueue = false then
    match (listFirst k.links .readyqueue).bind listHeadToTaskStruct with
    | some t => (k.unlink (.task t)).dispatch t
    | none => { k with stuck := true }
  else k.dispatch k.idleTask

/-- `schedule`. -/
def schedule (k : Kernel) : Kernel :=
  match k.updateSchedDataRr.needsSchedRr with
  | (true, k) => (k.updateProcessStateRr k.current (some .readyqueue)).schedNextRr
  | (false, k) => k

end Kernel

end ZeOS.Zeos
