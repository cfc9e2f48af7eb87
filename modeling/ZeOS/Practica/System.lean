import ZeOS.Run
import ZeOS.Practica.Interrupt

/-!
# The system

The booted kernel and the events that act on it from then on: the clock and
the keyboard, and what the task on the CPU does in user mode – loads,
stores, faults and system calls. An event runs to completion, interrupts
being disabled while the kernel is entered, so the states between events
are the ones a user or an interrupt handler can observe.

`idle_task` loops in the kernel with interrupts enabled and never enters
user mode, so only the clock and the keyboard act while it is current. An
event has no next state where it is not enabled in this way, where the
fault handler stops the machine, and where the code leaves what the model
describes (`Mm.stuck`, `Sched.stuck`, and a count of references past the
`int` it is kept in).
-/

namespace ZeOS.Practica

/-! ## Boot -/

/-- What the build and the machine decide: the page the linker puts
`protected_tasks` at, the contents of physical memory once `main` has moved
the user image, and the readings of the clock. -/
structure Machine where
  /-- The page of `protected_tasks[0]`. -/
  tasksPage : ℕ
  /-- The task array and its two guard pages lie in the kernel's pages, not
  at page 0. -/
  tasksPage_pos : 1 ≤ tasksPage
  tasksPage_lt : tasksPage + 11 < numPagKernel
  ram : Location → Byte
  ticks : ℕ → DWord

namespace Machine

/-- Zeroed task structs, as the image holds them. -/
def bss : TaskStruct := ⟨0, 0, 0, .run, 0, {}, .systemCallHandler⟩

/-- The scheduler before `init_sched`. The code of `main` runs on the stack
of another task of the array. -/
def loadedSched (M : Machine) : Sched where
  links := fun _ => ⟨none, none⟩
  task := fun _ => bss
  current := 3
  idleTask := 0
  remainingQuantum := 0
  globalPid := 1000
  cr3 := 0
  esp := 0
  ticks := M.ticks
  unlinkedDel := false
  stuck := false

/-- The memory after `init_table_pages` and `init_frames`. -/
def loadedMm (M : Machine) : Mm where
  physMem := initFrames
  pagusrTable := fun _ => initTablePages M.tasksPage
  shmMem := fun _ => ⟨0, 0, false⟩
  ram := M.ram
  stuck := false

/-- The address of the task array. -/
def taskArray (M : Machine) : DWord := BitVec.ofNat 32 ((M.tasksPage + 1) * pageSize)

/-- `main`, the scheduler: the queues, the idle task, the first task. -/
def bootSched (M : Machine) : Sched :=
  let s := M.loadedSched.allocateDir 0
  let s := s.setCr3 (s.getDir 0)
  let s := s.initSched
  let s := s.initIdle M.taskArray
  s.initTask1

/-- `main`, the memory: the pages of the first task, then the shared
segments. -/
def bootMm (M : Machine) : Mm :=
  (M.loadedMm.setUserPages (M.bootSched.getPt M.bootSched.current)).initSharedMemory

/-- The state `main` leaves for user mode. -/
def boot (M : Machine) : Kernel where
  mm := M.bootMm
  sched := M.bootSched
  cb := ⟨fun _ => 0, 0, 0, 0⟩
  isDefined := false
  zeosTicks := 0

/-- A machine with zeroed memory and a stopped clock, for examples. -/
def sample : Machine where
  tasksPage := 32
  tasksPage_pos := by decide
  tasksPage_lt := by decide
  ram := fun _ => 0
  ticks := fun _ => 0

end Machine

/-! ## Events -/

/-- What happens to the system. The frame pointer `ebp` is the one the
kernel code sees when it saves its stack. -/
inductive Event where
  /-- A clock interrupt. -/
  | tick (ebp : DWord)
  /-- A keyboard interrupt: the byte at the port, and what lies past the
  character table. -/
  | key (c past : Byte)
  /-- The current task loads a byte. -/
  | load (addr : DWord)
  /-- The current task stores a byte, again after a page fault if the first
  attempt raises one. -/
  | store (addr : DWord) (b : Byte)
  /-- An access of the current task raises a page fault. -/
  | fault (cr2 : DWord)
  | fork (ebp : DWord)
  | exit (ebp : DWord)
  | yield (ebp : DWord)
  | shmat (id addr : DWord)
  | shmdt (addr : DWord)
  | shmrm (id : DWord)
  | read (b maxchars : DWord)
  | getStats (pid st : DWord)

/-- Whether the event is an act of the current task. -/
def Event.byTask : Event → Bool
  | .tick _ => false
  | .key _ _ => false
  | _ => true

namespace Kernel

/-- A system call: `f` between the entry and the exit of
`system_call_handler`. -/
def systemCall (k : Kernel) (f : Kernel → Kernel) : Kernel :=
  let k := f { k with sched := k.sched.enter .systemCallHandler }
  { k with sched := k.sched.leave }

/-- A store in user mode that does not fault. -/
def userStore (addr : DWord) (b : Byte) (k : Kernel) : Option Kernel :=
  if k.mm.userCanStore k.sched.cr3 addr.toNat then
    (k.mm.translate k.sched.cr3 addr.toNat).map
      (fun loc => { k with mm := k.mm.store loc b })
  else none

/-- What an event does, before asking whether the machine can follow it. -/
def perform (k : Kernel) : Event → Option Kernel
  | .tick ebp => some (k.clockHandler ebp)
  | .key c past => some (k.keyboardHandler c past)
  | .load addr => if (k.mm.userLoad k.sched.cr3 addr.toNat).isSome then some k else none
  | .store addr b =>
    if k.mm.userCanStore k.sched.cr3 addr.toNat then k.userStore addr b
    else (k.pagefault addr).bind (userStore addr b)
  | .fault cr2 =>
    if k.mm.userCanStore k.sched.cr3 cr2.toNat then none else k.pagefault cr2
  | .fork ebp => some (k.systemCall (fun k => (k.sysFork ebp).2))
  | .exit ebp => some (k.systemCall (fun k => k.sysExit ebp))
  | .yield ebp => some (k.systemCall (fun k => (k.sysYield ebp).2))
  | .shmat id addr => some (k.systemCall (fun k =>
      { k with mm := (k.mm.sysShmat (k.sched.getPt k.sched.current) id addr).2 }))
  | .shmdt addr => some (k.systemCall (fun k =>
      { k with mm := (k.mm.sysShmdt k.sched.cr3 (k.sched.getPt k.sched.current) addr).2 }))
  | .shmrm id => some (k.systemCall (fun k => { k with mm := (k.mm.sysShmrm id).2 }))
  | .read b maxchars => some (k.systemCall (fun k => (k.sysRead b maxchars).2))
  | .getStats pid st => some (k.systemCall (fun k => (k.sysGetStats pid st).2))

/-- **One event.** It has no next state where a mark is raised, or where a
count of references leaves its `int`. -/
def step (k : Kernel) (e : Event) : Option Kernel :=
  if e.byTask && decide (k.sched.current = k.sched.idleTask) then none
  else
    match k.perform e with
    | some k' =>
      if k'.mm.stuck || k'.sched.stuck || !decide k'.mm.CountsFit then none else some k'
    | none => none

end Kernel

/-- **The reachable states**: those at the end of a run of events from
boot. -/
def Reachable (M : Machine) (k : Kernel) : Prop :=
  ∃ es, Run Kernel.step (fun _ _ => True) M.boot es k

/-! ## Observing a state -/

namespace Kernel

/-- The slots linked through a queue, in order. -/
def queueSlots (k : Kernel) (head : Node) : List Slot :=
  (k.sched.links.walk head (nrTasks + 1) head).filterMap Sched.listHeadToTaskStruct

/-- The slots in `freequeue`. -/
def freeSlots (k : Kernel) : List Slot := k.queueSlots .freequeue

/-- The slots in `readyqueue`. -/
def readySlots (k : Kernel) : List Slot := k.queueSlots .readyqueue

/-- **The live processes**: the current one, the idle one, the ready ones. -/
def Live (k : Kernel) (s : Slot) : Prop :=
  s = k.sched.current ∨ s = k.sched.idleTask ∨ s ∈ k.readySlots

instance (k : Kernel) : DecidablePred k.Live :=
  fun _ => inferInstanceAs (Decidable (_ ∨ _ ∨ _))

/-- The page table of a process. -/
def ptOf (k : Kernel) (s : Slot) : PageTable := k.mm.pagusrTable (k.sched.getPt s)

end Kernel

end ZeOS.Practica
