import Mathlib.Algebra.Group.Int.Defs
import Mathlib.Algebra.GroupWithZero.Nat
import Mathlib.Data.Fintype.Basic
import Mathlib.Logic.Function.Basic

/-!
# Memory management

`mm.c` of the practica kernel with the constants of `mm_address.h`: the
byte map of physical pages, the page tables, and the physical memory they
translate to.

The code writes its tables through plain indices. Where an index can leave
its table the memory state carries a mark, `stuck`, that the functions
below raise instead of pretending to know what was overwritten; a system
step that raises it has no next state.

The page table of a task is named by the slot whose `dir_pages` entry the
task points at: `init_dir_pages` makes `dir_pages[i]` lead to
`pagusr_table[i]` for every `i` and nothing changes that afterwards.
-/

namespace ZeOS.Practica

/-! ## Constants of `mm_address.h`, `mm.h` and `sched.h` -/

abbrev totalPages : ℕ := 1024
abbrev numPagKernel : ℕ := 256
abbrev numPagCode : ℕ := 8
abbrev numPagData : ℕ := 20
abbrev pageSize : ℕ := 4096

/-- `L_USER_START>>12`. -/
abbrev pagLogInitCode : ℕ := 256
abbrev pagLogInitData : ℕ := pagLogInitCode + numPagCode
abbrev userFirstPage : ℕ := 256

/-- The first logical page past the private pages of a process, where
shared segments are attached. -/
abbrev pagLogInitShared : ℕ := numPagKernel + numPagCode + numPagData

/-- `FREE_FRAME`. -/
abbrev freeFrameMark : ℕ := 0

/-- `USED_FRAME`. -/
abbrev usedFrameMark : ℕ := 1

abbrev nrTasks : ℕ := 10

/-- The number of shared segments, `sizeof(shm_mem)/sizeof(shm_mem[0])`. -/
abbrev shmLength : ℕ := 10

/-- A position of the task array. -/
abbrev Slot := Fin nrTasks

instance : NeZero nrTasks := ⟨by decide⟩

abbrev Byte := BitVec 8
abbrev DWord := BitVec 32

/-- An `int` that is not negative is read the same without its sign. -/
theorem toInt_eq_toNat_of_nonneg {v : DWord} (h : 0 ≤ v.toInt) : v.toInt = v.toNat := by
  refine BitVec.toInt_eq_toNat_of_msb ?_
  rw [BitVec.msb_eq_toInt]
  exact decide_eq_false (Int.not_lt.mpr h)

/-! ## Data -/

/-- The bits of a page table entry the kernel reads or writes. -/
structure PageTableEntry where
  present : Bool
  rw : Bool
  user : Bool
  /-- The frame, a 20-bit field. -/
  pbaseAddr : BitVec 20
deriving DecidableEq

/-- The entry whose 32 bits are zero. -/
def PageTableEntry.zero : PageTableEntry := ⟨false, false, false, 0⟩

abbrev PageTable := ℕ → PageTableEntry

/-- `phys_mem`: per frame, the byte that says whether it is free. -/
abbrev PhysMem := ℕ → ℕ

/-- A physical byte: a frame and an offset into it. -/
abbrev Location := ℕ × ℕ

/-- `struct shm_mem_struct`. -/
structure ShmMemStruct where
  shmMemFrameAddr : ℕ
  referencias : ℤ
  aBorrar : Bool
deriving DecidableEq

/-- The memory of the machine and the tables that describe it. -/
@[ext]
structure Mm where
  physMem : PhysMem
  pagusrTable : Slot → PageTable
  shmMem : ℕ → ShmMemStruct
  ram : Location → Byte
  /-- Raised where the code leaves a table or an unmapped page is accessed
  in kernel mode. -/
  stuck : Bool

/-! ## Frames -/

/-- The frames `alloc_frame` looks at, in its order: the loop starts at
`NUM_PAG_KERNEL` and takes steps of two. -/
def frameScan : List ℕ :=
  List.range' numPagKernel ((totalPages - numPagKernel) / 2) 2

/-- Search a free physical page and mark it as used. Returns the frame
number or -1 if there isn't any frame available. -/
def allocFrame (phys : PhysMem) : ℤ × PhysMem :=
  match frameScan.find? (fun i => decide (phys i = freeFrameMark)) with
  | some i => (i, Function.update phys i 1)
  | none => (-1, phys)

/-- Mark as free the frame `frame`. -/
def freeFrame (phys : PhysMem) (frame : ℕ) : PhysMem :=
  if numPagKernel < frame ∧ frame < totalPages then
    Function.update phys frame freeFrameMark
  else phys

/-- Initializes the byte map: every page free, then the kernel's used. -/
def initFrames : PhysMem := fun i =>
  if i < numPagKernel then usedFrameMark else freeFrameMark

/-! ## Page tables -/

/-- Associates logical page `page` with physical page `frame`. The frame is
stored into the 20 bits of the field. -/
def setSsPag (pt : PageTable) (page : ℕ) (frame : ℤ) : PageTable :=
  Function.update pt page ⟨true, true, true, BitVec.ofInt 20 frame⟩

/-- Removes the mapping from logical page `page`. -/
def delSsPag (pt : PageTable) (page : ℕ) : PageTable :=
  Function.update pt page PageTableEntry.zero

/-- The physical frame associated to page `page`. -/
def getFrame (pt : PageTable) (page : ℕ) : ℕ := (pt page).pbaseAddr.toNat

/-- The entry `set_ss_pag` writes. -/
theorem setSsPag_apply (pt : PageTable) (page : ℕ) (frame : ℤ) (p : ℕ) :
    setSsPag pt page frame p
      = if p = page then ⟨true, true, true, BitVec.ofInt 20 frame⟩ else pt p :=
  Function.update_apply pt page _ p

theorem delSsPag_apply (pt : PageTable) (page p : ℕ) :
    delSsPag pt page p = if p = page then PageTableEntry.zero else pt p :=
  Function.update_apply pt page _ p

/-- Sets the `rw` bit of an entry and no other. -/
def setRw (pt : PageTable) (page : ℕ) (b : Bool) : PageTable :=
  fun p => if p = page then { pt p with rw := b } else pt p

/-- `init_table_pages` for one process: kernel pages only, page 0 left out
to comply with the NULL convention, and the pages just before and after the
task array made invalid. `tasksPage` is the page the linker puts
`protected_tasks` at. -/
def initTablePages (tasksPage : ℕ) : PageTable := fun i =>
  if 1 ≤ i ∧ i < numPagKernel then
    ⟨decide (i ≠ tasksPage ∧ i ≠ tasksPage + 11), true, false, BitVec.ofNat 20 i⟩
  else PageTableEntry.zero

namespace Mm

/-- Replace the page table of a slot. -/
def setTable (m : Mm) (s : Slot) (pt : PageTable) : Mm :=
  { m with pagusrTable := Function.update m.pagusrTable s pt }

@[simp] theorem setTable_apply (m : Mm) (s : Slot) (pt : PageTable) (t : Slot) :
    (m.setTable s pt).pagusrTable t = if t = s then pt else m.pagusrTable t :=
  Function.update_apply m.pagusrTable s pt t

@[simp] theorem setTable_physMem (m : Mm) (s : Slot) (pt : PageTable) :
    (m.setTable s pt).physMem = m.physMem := rfl

@[simp] theorem setTable_shmMem (m : Mm) (s : Slot) (pt : PageTable) :
    (m.setTable s pt).shmMem = m.shmMem := rfl

@[simp] theorem setTable_ram (m : Mm) (s : Slot) (pt : PageTable) :
    (m.setTable s pt).ram = m.ram := rfl

@[simp] theorem setTable_stuck (m : Mm) (s : Slot) (pt : PageTable) :
    (m.setTable s pt).stuck = m.stuck := rfl

/-- The counts of references fit the `int` they are kept in. -/
def CountsFit (m : Mm) : Prop :=
  ∀ i < shmLength, -2 ^ 31 ≤ (m.shmMem i).referencias ∧ (m.shmMem i).referencias < 2 ^ 31

instance (m : Mm) : Decidable m.CountsFit := inferInstanceAs (Decidable (∀ i < shmLength, _))

theorem CountsFit.congr {m m' : Mm} (h : m.CountsFit) (hshm : m'.shmMem = m.shmMem) :
    m'.CountsFit := by
  rw [CountsFit, hshm]
  exact h

/-- The counts are at most `b` away from zero. -/
def CountsWithin (m : Mm) (b : ℤ) : Prop :=
  ∀ i < shmLength, -b ≤ (m.shmMem i).referencias ∧ (m.shmMem i).referencias ≤ b

theorem CountsWithin.fit {m : Mm} {b : ℤ} (h : m.CountsWithin b) (hb : b < 2 ^ 31) :
    m.CountsFit := by
  intro i hi
  obtain ⟨h₁, h₂⟩ := h i hi
  exact ⟨by omega, by omega⟩

theorem CountsWithin.mono {m : Mm} {b b' : ℤ} (h : m.CountsWithin b) (hb : b ≤ b') :
    m.CountsWithin b' := by
  intro i hi
  obtain ⟨h₁, h₂⟩ := h i hi
  exact ⟨by omega, by omega⟩

/-- Raise the mark unless the condition holds. -/
def require (m : Mm) (p : Prop) [Decidable p] : Mm :=
  { m with stuck := m.stuck || !decide p }

/-- `set_user_pages`: one round of either of its loops, a fresh frame mapped
at page `first + pag`. -/
def setUserPage (first : ℕ) (rw : Bool) (s : Slot) (m : Mm) (pag : ℕ) : Mm :=
  let (newPhPag, phys) := allocFrame m.physMem
  { m.setTable s (Function.update (m.pagusrTable s) (first + pag)
      ⟨true, rw, true, BitVec.ofInt 20 newPhPag⟩) with physMem := phys }

/-- `set_user_pages`: the loop over the code pages, which are not writable. -/
def setUserCodePage (s : Slot) (m : Mm) (pag : ℕ) : Mm :=
  setUserPage pagLogInitCode false s m pag

/-- `set_user_pages`: the loop over the data pages. -/
def setUserDataPage (s : Slot) (m : Mm) (pag : ℕ) : Mm :=
  setUserPage pagLogInitData true s m pag

/-- Initialize pages for the initial process. -/
def setUserPages (m : Mm) (s : Slot) : Mm :=
  let m := (List.range numPagCode).foldl (setUserCodePage s) m
  (List.range numPagData).foldl (setUserDataPage s) m

/-- `init_shared_memory`: one round of its loop. -/
def initSharedSegment (m : Mm) (i : ℕ) : Mm :=
  let (newPhPag, phys) := allocFrame m.physMem
  if newPhPag = -1 then
    { m with
      physMem := phys
      shmMem := Function.update m.shmMem i { m.shmMem i with shmMemFrameAddr := 0 } }
  else
    { m with
      physMem := phys
      shmMem := Function.update m.shmMem i
        { m.shmMem i with shmMemFrameAddr := newPhPag.toNat, referencias := 0 } }

/-- Initialize Shared Memory. -/
def initSharedMemory (m : Mm) : Mm :=
  (List.range shmLength).foldl initSharedSegment m

/-! ## Translation

The segment selectors of the kernel and of the user give the same linear
addresses, so an access goes through the page table of the loaded
directory. A directory has its first entry only, so pages from `TOTAL_PAGES`
on are not present. -/

/-- The physical byte a linear address is translated to, if its page is
present. -/
def translate (m : Mm) (s : Slot) (addr : ℕ) : Option Location :=
  let page := addr % 2 ^ 32 / pageSize
  if page < totalPages ∧ (m.pagusrTable s page).present = true then
    some (getFrame (m.pagusrTable s) page, addr % pageSize)
  else none

/-- The byte a user-mode load reads, or nothing where it faults. -/
def userLoad (m : Mm) (s : Slot) (addr : ℕ) : Option Byte :=
  if (m.pagusrTable s (addr % 2 ^ 32 / pageSize)).user then
    (m.translate s addr).map m.ram
  else none

/-- Whether a user-mode store does not fault. -/
def userCanStore (m : Mm) (s : Slot) (addr : ℕ) : Bool :=
  let entry := m.pagusrTable s (addr % 2 ^ 32 / pageSize)
  (m.translate s addr).isSome && entry.user && entry.rw

/-- A byte stored at a physical location. The frames of the kernel image hold
the tables this very state describes, and a store into them is not
followed. -/
def store (m : Mm) (loc : Location) (b : Byte) : Mm :=
  { m with ram := Function.update m.ram loc b }.require (numPagKernel ≤ loc.1)

/-- A load in kernel mode. -/
def kernelLoad (s : Slot) (m : Mm) (addr : ℕ) : Byte :=
  match m.translate s addr with
  | some loc => m.ram loc
  | none => 0

/-- A store in kernel mode. `CR0.WP` is clear, so the `rw` bit is not
consulted; a page that is not present is a fault taken in kernel mode. -/
def kernelStore (s : Slot) (m : Mm) (addr : ℕ) (b : Byte) : Mm :=
  match m.translate s addr with
  | some loc => m.store loc b
  | none => { m with stuck := true }

end Mm

end ZeOS.Practica
