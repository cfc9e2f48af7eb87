import ZeOS.Practica.Sched

/-!
# Copying and checking user memory

`utils.c`: the copy loop the kernel uses for whole structures, pages and
user buffers, and the test `access_ok` that the system calls put in front
of a user pointer.

The three copy functions of the source have one body, stated here once over
any memory that can be loaded from and stored to, since one of the two ends
may be an object of the kernel that no page table is consulted for.
-/

namespace ZeOS.Practica

/-! ## The copy loop -/

section Copy

variable {M : Type*} (load : M → ℕ → Byte) (store : M → ℕ → Byte → M)

/-- The second loop: byte by byte. -/
def copyBytes (m : M) (p1 q1 : ℕ) : ℕ → M
  | 0 => m
  | size + 1 => copyBytes (store m q1 (load m p1)) (p1 + 1) (q1 + 1) size

/-- Move a `DWord`: its bytes are all loaded before any is stored. -/
def copyWord (m : M) (p q : ℕ) : M :=
  let b0 := load m p
  let b1 := load m (p + 1)
  let b2 := load m (p + 2)
  let b3 := load m (p + 3)
  store (store (store (store m q b0) (q + 1) b1) (q + 2) b2) (q + 3) b3

/-- The body of `copy_data`, `copy_from_user` and `copy_to_user`: words
while more than four bytes are left, then bytes. -/
def copyLoop (m : M) (p q : ℕ) : ℕ → M
  | size + 5 => copyLoop (copyWord load store m p q) (p + 4) (q + 4) (size + 1)
  | size => copyBytes load store m p q size

end Copy

/-- `copy_data` between two linear addresses. -/
def copyData (cr3 : Slot) (m : Mm) (start dest size : ℕ) : Mm :=
  copyLoop (Mm.kernelLoad cr3) (Mm.kernelStore cr3) m start dest size

/-- `copy_to_user` from an object of the kernel, given by its bytes. -/
def copyToUser (cr3 : Slot) (m : Mm) (start : ℕ → Byte) (dest size : ℕ) : Mm :=
  copyLoop (fun _ i => start i) (Mm.kernelStore cr3) m 0 dest size

/-! ## `access_ok` -/

/-- `VERIFY_READ` and `VERIFY_WRITE`. -/
inductive AccessType where
  | verifyRead
  | verifyWrite
deriving DecidableEq

/-- The loop of `access_ok`: whether every page of a run of pages has a
frame. -/
def allHaveFrame (pageTable : PageTable) (addrIni pagToLoop : ℕ) : Bool :=
  (List.range pagToLoop).all (fun i => getFrame pageTable (addrIni + i) ≠ 0)

/-- The page a linear address lies in. -/
def pageOf (addr : DWord) : ℕ := (addr >>> 12).toNat

/-- Checks if a user space pointer is valid. The loop of the `default` case
stands under the range test and its `return 1` does not, and the
`VERIFY_WRITE` case falls through into it. -/
def accessOk (pageTable : PageTable) (type : AccessType) (addr size : DWord) : Bool :=
  let addrIni := pageOf addr
  let addrFin := pageOf (addr + size)
  if addrFin < addrIni then false
  else
    let pagToLoop := addrFin - addrIni + if size.toNat % pageSize ≠ 0 then 1 else 0
    let dflt :=
      if userFirstPage ≤ addrIni ∧ addrFin < totalPages then
        allHaveFrame pageTable addrIni pagToLoop
      else true
    match type with
    | .verifyWrite =>
      if userFirstPage + numPagCode ≤ addrIni
          ∧ addrFin ≤ userFirstPage + numPagCode + numPagData then true
      else if userFirstPage + numPagCode + numPagData < addrIni
          ∧ addrFin < totalPages then
        allHaveFrame pageTable addrIni pagToLoop
      else dflt
    | .verifyRead => dflt

end ZeOS.Practica
