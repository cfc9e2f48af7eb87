import ZeOS.Run
import ZeOS.Zeos.Sched

/-!
# System calls and the system of the zeos kernel

`sys.c` of the kernel in `zeos/`: `sys_fork`, `sys_exit`, `sys_block` and
`sys_unblock`, the state `main` boots into, and the events that act on it:
the clock, and what the current process does.
-/

namespace ZeOS.Zeos

/-! ## `errno.h` -/

abbrev eAGAIN : ℤ := 11
abbrev eNOMEM : ℤ := 12

/-- The largest `int`. -/
abbrev intMax : ℤ := 2147483647

/-! ## The loops of `sys_fork` and `sys_exit` -/

/-- The loop that allocates the frames of the child, with those it has. Where
there is none left it gives them back. -/
def allocFrames : ℕ → List ℕ → PhysMem → Option (List ℕ) × PhysMem
  | 0, frames, phys => (some frames, phys)
  | left + 1, frames, phys =>
    match allocFrame phys with
    | (frame, phys) =>
      if frame = -1 then (none, frames.foldl freeFrame phys)
      else allocFrames left (frames ++ [frame.toNat]) phys

namespace Mm

/-- Copy one entry of the parent's kernel or code to the child. -/
def copyEntry (parent child : Slot) (m : Mm) (pag : ℕ) : Mm :=
  m.setTable child
    (setSsPag (m.pagusrTable child) pag (getFrame (m.pagusrTable parent) pag))

/-- Map one of the frames allocated at a data page of the child. -/
def mapDataPage (child : Slot) (frames : List ℕ) (m : Mm) (i : ℕ) : Mm :=
  m.setTable child (setSsPag (m.pagusrTable child) (pagLogInitData + i) (frames.getD i 0 : ℕ))

/-- Copy one page of the parent to the frame of the child, through a page of
the parent's table that maps it meanwhile. -/
def copyPage (cr3 parent child : Slot) (m : Mm) (i : ℕ) : Mm :=
  let m := m.setTable parent
    (setSsPag (m.pagusrTable parent) (i + numPagData) (getFrame (m.pagusrTable child) i))
  let m := copyData cr3 m (i * pageSize) ((i + numPagData) * pageSize) pageSize
  m.setTable parent (delSsPag (m.pagusrTable parent) (i + numPagData))

/-- The memory of the child: kernel, code and data pages, then the copy. The
pages copied are those from `NUM_PAG_KERNEL + NUM_PAG_CODE` on. -/
def forkPages (cr3 parent child : Slot) (frames : List ℕ) (m : Mm) : Mm :=
  let m := (List.range numPagKernel).foldl (copyEntry parent child) m
  let m := (List.range' pagLogInitCode numPagCode).foldl (copyEntry parent child) m
  let m := (List.range numPagData).foldl (mapDataPage child frames) m
  (List.range' (numPagKernel + numPagCode) numPagData).foldl (copyPage cr3 parent child) m

/-- One round of the loop of `sys_exit`. -/
def freePage (s : Slot) (m : Mm) (i : ℕ) : Mm :=
  { m.setTable s (delSsPag (m.pagusrTable s) i) with
    physMem := freeFrame m.physMem (getFrame (m.pagusrTable s) i) }

/-- The memory a process gives up when it exits: the pages from
`NUM_PAG_KERNEL + NUM_PAG_CODE` on. -/
def exitPages (m : Mm) (s : Slot) : Mm :=
  (List.range' (numPagKernel + numPagCode) numPagData).foldl (freePage s) m

end Mm

/-! ## `sys.c` -/

namespace Kernel

/-- `copy_data` of the current task's union to another one. -/
def copyUnion (k : Kernel) (child : Slot) : Kernel :=
  { k with
    task := Function.update k.task child (k.task k.current)
    links := Function.update k.links (.task child) (k.links (.task k.current))
    family := Function.update (Function.update k.family (.childs child)
      (k.family (.childs k.current))) (.aParentList child) (k.family (.aParentList k.current)) }

/-- The fields of a child, from `++starting_pid` on, and its lists. -/
def startChild (k : Kernel) (child : Slot) : Kernel :=
  let k :=
    { k with
      startingPid := k.startingPid + 1
      stuck := k.stuck || decide (k.startingPid = intMax) }
  let k := k.modifyTask child (fun c =>
    { c with
      pid := k.startingPid, state := .ready, pParent := some k.current, pendingUnblocks := 0 })
  let k := { k with family := initListHead k.family (.childs child) }
  let k := k.linkKin (.aParentList child) (.childs k.current)
  k.linkTail (.task child) .readyqueue

/-- `sys_fork`. -/
def sysFork (k : Kernel) : ℤ × Kernel :=
  if listEmpty k.links .freequeue then (-eNOMEM, k)
  else
    match (listFirst k.links .freequeue).bind listHeadToTaskStruct with
    | none => (0, { k with stuck := true })
    | some child =>
      let k := k.unlink (.task child)
      let k := k.copyUnion child
      let k := k.allocateDir child
      match allocFrames numPagData [] k.mm.physMem with
      | (none, phys) =>
        (-eAGAIN, { k with mm := { k.mm with physMem := phys } }.linkTail (.task child) .freequeue)
      | (some frames, phys) =>
        let m := Mm.forkPages k.cr3 (k.getPt k.current) (k.getPt child) frames
          { k.mm with physMem := phys }
        let k := ({ k with mm := m }.setCr3 (k.getPt k.current)).startChild child
        ((k.task child).pid, k)

/-- `sys_exit`. -/
def sysExit (k : Kernel) : Kernel :=
  let t := k.current
  let k := if (k.task t).pid ≠ 1 ∧ (k.task t).pid ≠ 0 then k.unlinkKin (.aParentList t) else k
  let k := k.linkKin (.childs k.idleTask) (.childs t)
  let k := k.unlinkKin (.childs t)
  let k := { k with mm := Mm.exitPages k.mm (k.getPt t) }
  (k.updateProcessStateRr t (some .freequeue)).schedNextRr

/-- `sys_block`. -/
def sysBlock (k : Kernel) : Kernel :=
  let t := k.current
  if (k.task t).pendingUnblocks = 0 then
    let k := k.modifyTask t (fun c => { c with state := .blocked })
    let k := k.unlink (.task t)
    let k := k.linkTail (.task t) .blocked
    k.schedule
  else k.modifyTask t (fun c => { c with pendingUnblocks := c.pendingUnblocks - 1 })

/-- The loop of `sys_unblock`: the last child with the PID, in the order of
the list. -/
def findChild (k : Kernel) (pid : ℤ) : Option Slot :=
  (((k.family.walk (.childs k.current) (2 * nrTasks + 1) (.childs k.current)).map
    kinToTaskStruct).filter (fun t => decide ((k.task t).pid = pid))).getLast?

/-- `sys_unblock`. Where the child is not blocked there is no `return`, and
what the caller gets is not known; a count past the largest `int` is not
followed. -/
def sysUnblock (pid : ℤ) (k : Kernel) : Option ℤ × Kernel :=
  match k.findChild pid with
  | some t =>
    if (k.task t).state = .blocked then
      let k := k.modifyTask t (fun c => { c with state := .ready })
      let k := k.unlink (.task t)
      (some 0, k.linkTail (.task t) .readyqueue)
    else
      let k := { k with stuck := k.stuck || decide ((k.task t).pendingUnblocks = intMax) }
      (none, k.modifyTask t (fun c => { c with pendingUnblocks := c.pendingUnblocks + 1 }))
  | none => (some (-1), k)

end Kernel

/-! ## Boot -/

/-- `init_table_pages` for one process: kernel pages only, page 0 left out to
comply with the NULL convention. -/
def initTablePages : PageTable := fun i =>
  if 1 ≤ i ∧ i < numPagKernel then ⟨true, true, false, BitVec.ofNat 20 i⟩
  else Practica.PageTableEntry.zero

/-- The memory after `init_table_pages` and `init_frames`. -/
def loadedMm (ram : Location → Byte) : Mm where
  physMem := initFrames
  pagusrTable := fun _ => initTablePages
  shmMem := fun _ => ⟨0, 0, false⟩
  ram := ram
  stuck := false

/-- `set_user_pages`. -/
def setUserPages (m : Mm) (s : Slot) : Mm :=
  let m := (List.range numPagCode).foldl (Practica.Mm.setUserPage pagLogInitCode false s) m
  (List.range numPagData).foldl (Practica.Mm.setUserPage pagLogInitData true s) m

namespace Kernel

/-- The zeroed variables of the image. The code of `main` runs on the stack of
another task of the array. -/
def loaded (ram : Location → Byte) : Kernel where
  mm := loadedMm ram
  links := fun _ => ⟨none, none⟩
  family := fun _ => ⟨none, none⟩
  task := fun _ => ⟨0, 0, .run, 0, 0, none⟩
  current := 3
  idleTask := 0
  ticksSinceCpu := 0
  startingPid := 1000
  cr3 := 0
  unlinkedDel := false
  stuck := false

/-- `init_sched`. -/
def initSched (k : Kernel) : Kernel :=
  let h := initListHead (initListHead (initListHead k.links .freequeue) .readyqueue) .blocked
  (List.finRange nrTasks).foldl (fun k t => k.link (.task t) .freequeue) { k with links := h }

/-- What `init_idle` and `init_task1` do alike: take the first free slot. -/
def initTask (pid : ℤ) (k : Kernel) (c : Slot) : Kernel :=
  let k := k.unlink (.task c)
  let k := k.modifyTask c (fun t => { t with pid := pid, quantum := Zeos.quantum, pParent := none })
  let k := k.allocateDir c
  { k with family := initListHead k.family (.childs c) }

/-- `init_idle`. -/
def initIdle (k : Kernel) : Kernel :=
  match (listFirst k.links .freequeue).bind listHeadToTaskStruct with
  | some c => { k.initTask 0 c with idleTask := c }
  | none => { k with stuck := true }

/-- `init_task1`. The kernel is left for user mode on the stack of this
task. -/
def initTask1 (k : Kernel) : Kernel :=
  match (listFirst k.links .freequeue).bind listHeadToTaskStruct with
  | some c =>
    let k := k.initTask 1 c
    { ({ k with mm := setUserPages k.mm (k.getPt c) }.setCr3 (k.getPt c)) with current := c }
  | none => { k with stuck := true }

/-- The state `main` leaves for user mode. What is in memory by then is
given. -/
def boot (ram : Location → Byte) : Kernel :=
  let k := (loaded ram).allocateDir 0
  let k := k.setCr3 (k.getPt 0)
  k.initSched.initIdle.initTask1

end Kernel

/-! ## Events -/

/-- What happens to the system. -/
inductive Event where
  /-- A clock interrupt. -/
  | tick
  | fork
  | exit
  | block
  | unblock (pid : ℤ)
  /-- The current process stores a byte. -/
  | store (addr : DWord) (b : Byte)
deriving DecidableEq

/-- Whether the event is an act of the current process. -/
def Event.byTask : Event → Bool
  | .tick => false
  | _ => true

namespace Kernel

/-- A store in user mode. One that faults stops the machine. -/
def userStore (addr : DWord) (b : Byte) (k : Kernel) : Option Kernel :=
  if k.mm.userCanStore k.cr3 addr.toNat then
    (k.mm.translate k.cr3 addr.toNat).map (fun loc => { k with mm := k.mm.store loc b })
  else none

/-- What an event does, before asking whether the machine can follow it. -/
def perform (k : Kernel) : Event → Option Kernel
  | .tick => some k.schedule
  | .fork => some k.sysFork.2
  | .exit => some k.sysExit
  | .block => some k.sysBlock
  | .unblock pid => some (k.sysUnblock pid).2
  | .store addr b => k.userStore addr b

/-- **One event.** `idle_task` loops in the kernel, so only the clock acts
while it is current. -/
def step (k : Kernel) (e : Event) : Option Kernel :=
  if e.byTask && decide (k.current = k.idleTask) then none
  else
    match k.perform e with
    | some k' => if k'.mm.stuck || k'.stuck then none else some k'
    | none => none

end Kernel

end ZeOS.Zeos
