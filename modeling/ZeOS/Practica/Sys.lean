import ZeOS.Practica.Utils
import ZeOS.Practica.CBuffer

/-!
# System calls

`sys.c`. Each call is a function of the kernel's state that gives the value
left in `eax` and the state after it. The memory half of `sys_fork` and of
`sys_exit` – their loops over page tables, frames and segments – is stated
on the memory alone, loop by loop.
-/

namespace ZeOS.Practica

/-! ## `errno.h` -/

abbrev eSRCH : ℤ := 3
abbrev eAGAIN : ℤ := 11
abbrev eNOMEM : ℤ := 12
abbrev eFAULT : ℤ := 14
abbrev eINVAL : ℤ := 22
abbrev eCANCELED : ℤ := 125

/-- The kernel's state: memory, scheduler and keyboard. -/
structure Kernel where
  mm : Mm
  sched : Sched
  cb : CircularBuffer
  /-- `isDefined`: whether the keyboard buffer has been initialized. -/
  isDefined : Bool
  zeosTicks : ℤ

namespace Mm

/-! ## The loops of `sys_fork` -/

/-- Give back the frame of a data page and clear its entry. The body of the
rollback loop of `sys_fork` and of the first loop of `sys_exit`. -/
def freeDataPage (s : Slot) (m : Mm) (i : ℕ) : Mm :=
  let phys := freeFrame m.physMem (getFrame (m.pagusrTable s) (pagLogInitData + i))
  { m.setTable s (delSsPag (m.pagusrTable s) (pagLogInitData + i)) with physMem := phys }

/-- Allocate pages for DATA+STACK, from page `pag` on with `left` pages to
go. Where no free page is left, deallocate everything up to `pag`. -/
def allocDataPages (s : Slot) (pag : ℕ) : ℕ → Mm → Bool × Mm
  | 0, m => (true, m)
  | left + 1, m =>
    match allocFrame m.physMem with
    | (newPhPag, phys) =>
      if newPhPag ≠ -1 then
        allocDataPages s (pag + 1) left
          { m.setTable s (setSsPag (m.pagusrTable s) (pagLogInitData + pag) newPhPag) with
            physMem := phys }
      else
        (false, (List.range pag).foldl (freeDataPage s) { m with physMem := phys })

/-- Copy one entry of the parent's SYSTEM or CODE to the child. -/
def copyEntry (parent child : Slot) (m : Mm) (pag : ℕ) : Mm :=
  m.setTable child
    (setSsPag (m.pagusrTable child) pag (getFrame (m.pagusrTable parent) pag))

/-- `phys_mem[frame]++`, on a byte. -/
def incPhysMem (m : Mm) (frame : ℕ) : Mm :=
  { m with physMem := Function.update m.physMem frame ((m.physMem frame + 1) % 256) }.require
    (frame < totalPages)

/-- Share one data page of the parent with the child, read-only for both. -/
def shareDataPage (parent child : Slot) (m : Mm) (pag : ℕ) : Mm :=
  let m := m.copyEntry parent child pag
  let m := m.incPhysMem (getFrame (m.pagusrTable parent) pag)
  let m := m.setTable child (setRw (m.pagusrTable child) pag false)
  m.setTable parent (setRw (m.pagusrTable parent) pag false)

/-- `shm_mem[i].referencias++` where segment `i` has the frame. -/
def addReference (frame : ℕ) (m : Mm) (i : ℕ) : Mm :=
  if (m.shmMem i).shmMemFrameAddr = frame then
    { m with
      shmMem := Function.update m.shmMem i
        { m.shmMem i with referencias := (m.shmMem i).referencias + 1 } }
  else m

/-- Give the child one shared page of the parent, if the parent has one
there. -/
def inheritSharedPage (parent child : Slot) (m : Mm) (pag : ℕ) : Mm :=
  let frame := getFrame (m.pagusrTable parent) pag
  if frame ≠ 0 then
    (List.range shmLength).foldl (addReference frame)
      (m.setTable child (setSsPag (m.pagusrTable child) pag frame))
  else m

/-- The page table of the child from that of the parent: system and code,
data, then the shared region. -/
def forkPages (m : Mm) (parent child : Slot) : Mm :=
  let m := (List.range numPagKernel).foldl (copyEntry parent child) m
  let m := (List.range' pagLogInitCode numPagCode).foldl (copyEntry parent child) m
  let m := (List.range' (numPagKernel + numPagCode) numPagData).foldl
    (shareDataPage parent child) m
  (List.range' pagLogInitShared (totalPages - pagLogInitShared)).foldl
    (inheritSharedPage parent child) m

/-! ## The loops of `sys_exit` -/

/-- Drop a reference of segment `i` if it has the frame. The last reference
deletes the entry of page `i`: the index of the segment hides the one of the
page. -/
def dropReference (s : Slot) (frame : ℕ) (m : Mm) (i : ℕ) : Mm :=
  if (m.shmMem i).shmMemFrameAddr = frame then
    let m :=
      { m with
        shmMem := Function.update m.shmMem i
          { m.shmMem i with referencias := (m.shmMem i).referencias - 1 } }
    if (m.shmMem i).referencias = 0 then m.setTable s (delSsPag (m.pagusrTable s) i) else m
  else m

/-- Release one page of the shared region. -/
def releaseSharedPage (s : Slot) (m : Mm) (i : ℕ) : Mm :=
  let frame := getFrame (m.pagusrTable s) i
  if frame ≠ 0 then (List.range shmLength).foldl (dropReference s frame) m else m

/-- The memory a process gives up when it exits. -/
def exitPages (m : Mm) (s : Slot) : Mm :=
  let m := (List.range numPagData).foldl (freeDataPage s) m
  (List.range' pagLogInitShared (totalPages - pagLogInitShared)).foldl
    (releaseSharedPage s) m

/-! ## Shared memory -/

/-- The loop of `sys_shmat`: the first page from `access` on that is not
present, if there is one below `TOTAL_PAGES`. -/
def findFreePage (pt : PageTable) (access : ℕ) : Option ℕ :=
  (List.range' access (totalPages - access)).find? (fun p => !(pt p).present)

/-- Map segment `id` at a page and count the reference. -/
def attach (m : Mm) (s : Slot) (id access : ℕ) : Mm :=
  { m.setTable s
      (setSsPag (m.pagusrTable s) access ((m.shmMem id).shmMemFrameAddr : ℕ)) with
    shmMem := Function.update m.shmMem id
      { m.shmMem id with referencias := (m.shmMem id).referencias + 1 } }

/-- `sys_shmat` on the page table of the caller. The page index is the
address shifted right as an `int`. -/
def sysShmat (m : Mm) (s : Slot) (id addr : DWord) : ℤ × Mm :=
  if addr &&& 0xfff#32 ≠ 0 then (-eCANCELED, m)
  else if id.toInt < 0 ∨ (shmLength : ℤ) ≤ id.toInt then (-eINVAL, m)
  else
    let access := (addr.sshiftRight 12).toNat
    let m := m.require (access < totalPages)
    if (m.pagusrTable s access).present then
      match findFreePage (m.pagusrTable s) access with
      | some page => ((page * pageSize : ℕ), m.attach s id.toNat page)
      | none => (-eINVAL, m)
    else ((access * pageSize : ℕ), m.attach s id.toNat access)

/-- One store of the clearing loop of `sys_shmdt`: eight zero bytes. -/
def clearWord (cr3 : Slot) (m : Mm) (j : ℕ) : Mm :=
  (List.range 8).foldl (fun m i => m.kernelStore cr3 (j + i) 0) m

/-- `sys_shmdt` on the page table of the caller. The loop that clears the
page compares a pointer to 8-byte words with the address of the page plus
`PAGE_SIZE / 8`. -/
def sysShmdt (m : Mm) (cr3 s : Slot) (addr : DWord) : ℤ × Mm :=
  let page := (addr &&& 0xfffff000#32).toNat
  let access := page / pageSize
  if totalPages ≤ access then (-eCANCELED, m)
  else if (m.pagusrTable s access).present = false then (-eCANCELED, m)
  else
    let frame := getFrame (m.pagusrTable s) access
    match (List.range shmLength).find? (fun i => (m.shmMem i).shmMemFrameAddr = frame) with
    | none => (-eCANCELED, m)
    | some i =>
      let m :=
        { m with
          shmMem := Function.update m.shmMem i
            { m.shmMem i with referencias := (m.shmMem i).referencias - 1 } }
      if (m.shmMem i).aBorrar = false ∨ (m.shmMem i).referencias ≠ 0 then (0, m)
      else
        let m := (List.range' page (pageSize / 8 / 8) 8).foldl (clearWord cr3) m
        let m :=
          { m with shmMem := Function.update m.shmMem i { m.shmMem i with aBorrar := false } }
        (0, m.setTable s (delSsPag (m.pagusrTable s) access))

/-- `sys_shmrm`. The test lets the index 10 through, one past the array. -/
def sysShmrm (m : Mm) (id : DWord) : ℤ × Mm :=
  if 10 < id.toInt ∨ id.toInt < 0 then (-eINVAL, m)
  else
    (0, { m with
      shmMem := Function.update m.shmMem id.toNat
        { m.shmMem id.toNat with aBorrar := true } }.require (id.toNat < shmLength))

end Mm

/-! ## The layout of `struct stats` -/

namespace Stats

/-- `sizeof(struct stats)`. -/
abbrev size : ℕ := 28

/-- The words of the struct in the order they are laid out. -/
def word (st : Stats) : ℕ → DWord
  | 0 => st.userTicks
  | 1 => st.systemTicks
  | 2 => st.blockedTicks
  | 3 => st.readyTicks
  | 4 => st.elapsedTotalTicks
  | 5 => st.totalTrans
  | _ => st.remainingTicks

/-- The bytes of the struct, each word with its low byte first. -/
def byte (st : Stats) (i : ℕ) : Byte := (st.word (i / 4)).extractLsb' (8 * (i % 4)) 8

end Stats

namespace Sched

/-- `list_head_to_task_struct`, where the pointer is the `list` of a task. -/
def listHeadToTaskStruct : Node → Option Slot
  | .task t => some t
  | .freequeue => none
  | .readyqueue => none

/-- `copy_data` of a whole task union: the struct with its `list` and the
stack. -/
def copyUnion (s : Sched) (start dest : Slot) : Sched :=
  { s with
    task := Function.update s.task dest (s.task start)
    links := Function.update s.links (.task dest) (s.links (.task start)) }

/-- The end of a successful `sys_fork`: `++global_PID`, the child's saved
stack pointer – at the caller's frame pointer moved to the child's stack,
less the slot of the fake frame – its statistics, and the ready queue. -/
def startChild (s : Sched) (ebp : DWord) (uchild : Slot) : Sched :=
  let s := s.setCr3 (s.getDir s.current)
  let s :=
    { s with
      globalPid := s.globalPid + 1
      stuck := s.stuck || !decide (s.globalPid + 1 < 2 ^ 31) }
  let registerEbp := ebp - BitVec.ofNat 32 (s.current.val * pageSize)
    + BitVec.ofNat 32 (uchild.val * pageSize)
  let s := s.modifyTask uchild (fun c =>
    { c with pid := s.globalPid, state := .ready, registerEsp := registerEbp - 4 })
  let s := s.initStats uchild
  let s := s.modifyTask uchild (fun c => { c with state := .ready })
  s.linkTail (.task uchild) .readyqueue

end Sched

namespace Kernel

/-- Raise the mark of the scheduler's half. -/
def abort (k : Kernel) : Kernel := { k with sched := { k.sched with stuck := true } }

/-- `sys_fork`. `ebp` is the frame pointer the call sees. -/
def sysFork (ebp : DWord) (k : Kernel) : ℤ × Kernel :=
  -- Any free task_struct?
  if listEmpty k.sched.links .freequeue then (-eNOMEM, k)
  else
    match (listFirst k.sched.links .freequeue).bind Sched.listHeadToTaskStruct with
    | none => (0, k.abort)
    | some uchild =>
      let s := k.sched.unlink (.task uchild)
      let s := s.copyUnion s.current uchild
      let s := s.allocateDir uchild
      match k.mm.allocDataPages (s.getPt uchild) 0 numPagData with
      | (false, m) =>
        (-eAGAIN, { k with mm := m, sched := s.linkTail (.task uchild) .freequeue })
      | (true, m) =>
        let m := m.forkPages (s.getPt s.current) (s.getPt uchild)
        let s := s.startChild ebp uchild
        ((s.task uchild).pid, { k with mm := m, sched := s })

/-- `sys_exit`. -/
def sysExit (ebp : DWord) (k : Kernel) : Kernel :=
  let m := k.mm.exitPages (k.sched.getPt k.sched.current)
  let s := k.sched.linkTail (.task k.sched.current) .freequeue
  let s := s.modifyTask s.current (fun c => { c with pid := -1 })
  { k with mm := m, sched := s.schedNextRr ebp }

/-- `sys_yield`. -/
def sysYield (ebp : DWord) (k : Kernel) : ℤ × Kernel :=
  (0, { k with sched := k.sched.forceTaskSwitch ebp })

/-- `sys_getpid`. -/
def sysGetpid (k : Kernel) : ℤ := k.sched.currentTask.pid

/-- `sys_gettime`. -/
def sysGettime (k : Kernel) : ℤ := k.zeosTicks

/-- The page table of the current task. -/
def currentPt (k : Kernel) : PageTable := k.mm.pagusrTable (k.sched.getPt k.sched.current)

/-- One round of `sys_read`: a character from the buffer to `b[i]`. -/
def readChar (b : DWord) (k : Kernel) (i : ℕ) : Kernel :=
  let (c, cb) := k.cb.dequeue
  { k with cb := cb, mm := copyToUser k.sched.cr3 k.mm (fun _ => c) (b.toNat + i) 1 }

/-- `sys_read`. -/
def sysRead (b maxchars : DWord) (k : Kernel) : ℤ × Kernel :=
  if !accessOk k.currentPt .verifyWrite b maxchars then (-eFAULT, k)
  else
    let n := if (k.cb.count : ℤ) < maxchars.toInt then (k.cb.count : ℤ) else maxchars.toInt
    (n, (List.range n.toNat).foldl (readChar b) k)

/-- `sys_get_stats`: the slots are scanned in array order. -/
def sysGetStats (pid st : DWord) (k : Kernel) : ℤ × Kernel :=
  if !accessOk k.currentPt .verifyWrite st (BitVec.ofNat 32 Stats.size) then (-eFAULT, k)
  else if pid.toInt < 0 then (-eINVAL, k)
  else
    match (List.finRange nrTasks).find? (fun i => decide ((k.sched.task i).pid = pid.toInt)) with
    | some i =>
      let s := k.sched.modifyTask i (fun c =>
        { c with pStats :=
          { c.pStats with remainingTicks := BitVec.ofInt 32 k.sched.remainingQuantum } })
      (0, { k with
        sched := s
        mm := copyToUser s.cr3 k.mm (s.task i).pStats.byte st.toNat Stats.size })
    | none => (-eSRCH, k)

end Kernel

end ZeOS.Practica
