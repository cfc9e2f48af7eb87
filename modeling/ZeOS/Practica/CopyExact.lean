import ZeOS.Practica.Copy

/-!
# The copy functions on a flat memory

`copy_data`, `copy_from_user` and `copy_to_user` have one body and one
contract: where the two regions do not overlap, the bytes of the first end up
in the second and nothing else is stored to. Here the memory is the whole
address space, addresses are words that wrap around, and what is stored to is
kept in a list, so that a word stored past the end of the region would show
even if it changed nothing.
-/

namespace ZeOS.Practica

/-- A memory of bytes, and the addresses stored to so far. -/
structure Memory where
  bytes : DWord → Byte
  stores : List DWord

namespace Memory

variable {m : Memory} {start dest : DWord} {size n : ℕ}

def load (m : Memory) (addr : ℕ) : Byte := m.bytes (BitVec.ofNat 32 addr)

def store (m : Memory) (addr : ℕ) (b : Byte) : Memory where
  bytes := Function.update m.bytes (BitVec.ofNat 32 addr) b
  stores := m.stores ++ [BitVec.ofNat 32 addr]

/-- `copy_data`. -/
def copyData (m : Memory) (start dest : DWord) (size : ℕ) : Memory :=
  copyLoop load store m start.toNat dest.toNat size

/-- `copy_from_user`. -/
def copyFromUser (m : Memory) (start dest : DWord) (size : ℕ) : Memory :=
  copyLoop load store m start.toNat dest.toNat size

/-- `copy_to_user`. -/
def copyToUser (m : Memory) (start dest : DWord) (size : ℕ) : Memory :=
  copyLoop load store m start.toNat dest.toNat size

/-- The `i`-th byte of a region. -/
def offset (a : DWord) (i : ℕ) : DWord := a + BitVec.ofNat 32 i

/-- Two regions of a size have no byte in common. -/
def Disjoint (start dest : DWord) (size : ℕ) : Prop :=
  ∀ i < size, ∀ j < size, offset start i ≠ offset dest j

instance : Decidable (Disjoint start dest size) :=
  inferInstanceAs (Decidable (∀ i < size, _))

/-- **An exact copy**: the region holds what the source held, nothing outside
of it has changed, and each of its bytes has been stored to once, in order,
and nothing else. -/
structure Copied (m : Memory) (start dest : DWord) (size : ℕ) (m' : Memory) : Prop where
  copied : ∀ i < size, m'.bytes (offset dest i) = m.bytes (offset start i)
  kept : ∀ a, (∀ i < size, offset dest i ≠ a) → m'.bytes a = m.bytes a
  stores : m'.stores = m.stores ++ (List.range size).map (offset dest)

theorem ofNat_toNat_add (a : DWord) (i : ℕ) : BitVec.ofNat 32 (a.toNat + i) = offset a i := by
  rw [BitVec.ofNat_add, BitVec.ofNat_toNat, BitVec.setWidth_eq]
  rfl

/-- A region as large as the address space overlaps every other one. -/
theorem Disjoint.size_lt (h : Disjoint start dest size) : size < 2 ^ 32 := by
  by_contra hge
  have hlt := (dest - start).isLt
  refine h (dest - start).toNat (by omega) 0 (by omega) ?_
  rw [offset, offset, BitVec.ofNat_toNat, BitVec.setWidth_eq, BitVec.add_comm,
    BitVec.sub_add_cancel]
  exact (BitVec.add_zero dest).symm

/-- No byte of a region comes twice. -/
theorem at_injective (hn : n ≤ 2 ^ 32) {i j : ℕ} (hi : i < n) (hj : j < n)
    (h : offset dest i = offset dest j) : i = j := by
  have hoff := congrArg BitVec.toNat ((BitVec.add_right_inj dest).mp h)
  rw [BitVec.toNat_ofNat, BitVec.toNat_ofNat, Nat.mod_eq_of_lt (hi.trans_le hn),
    Nat.mod_eq_of_lt (hj.trans_le hn)] at hoff
  exact hoff

/-- A run of stores from the start of a region on. -/
theorem storeRun_store (m : Memory) (dest : DWord) (bytes : ℕ → Byte) (n : ℕ) :
    storeRun store dest.toNat bytes m n
      = ⟨writeRun m.bytes (offset dest) bytes n, m.stores ++ (List.range n).map (offset dest)⟩ := by
  induction n with
  | zero => exact congrArg (Memory.mk m.bytes) (List.append_nil _).symm
  | succ n ih =>
    rw [storeRun, ih, store, ofNat_toNat_add, List.range_succ, List.map_append, ← List.append_assoc]
    rfl

/-- **The loops copy exactly.** -/
theorem copied_copyLoop (h : Disjoint start dest size) :
    Copied m start dest size (copyLoop load store m start.toNat dest.toNat size) := by
  have hload : ∀ k < size, ∀ i < size,
      load (storeRun store dest.toNat (fun i => load m (start.toNat + i)) m k) (start.toNat + i)
        = load m (start.toNat + i) := by
    intro k hk i hi
    rw [storeRun_store, load, load, ofNat_toNat_add]
    exact writeRun.of_notMem (fun j hj => (h i hi j (hj.trans hk)).symm)
  rw [copyLoop_eq hload, storeRun_store]
  refine ⟨fun i hi => ?_, fun a ha => writeRun.of_notMem ha, rfl⟩
  have hinj : ∀ j < size, offset dest j = offset dest i → j = i :=
    fun j hj => at_injective h.size_lt.le hj hi
  show writeRun m.bytes (offset dest) _ size (offset dest i) = _
  rw [writeRun.of_injOn hinj hi, load, ofNat_toNat_add]

end Memory

/-- **`copy_data`, `copy_from_user` and `copy_to_user` copy exactly.** -/
theorem copies_exactly (m : Memory) (start dest : DWord) (size : ℕ)
    (h : Memory.Disjoint start dest size) :
    m.Copied start dest size (m.copyData start dest size)
      ∧ m.Copied start dest size (m.copyFromUser start dest size)
      ∧ m.Copied start dest size (m.copyToUser start dest size) :=
  ⟨Memory.copied_copyLoop h, Memory.copied_copyLoop h, Memory.copied_copyLoop h⟩

/-- Seven bytes, a word and three single ones, to the end of the address
space and around it. -/
theorem copies_exactly_seven :
    Memory.Copied ⟨fun a => a.setWidth 8, []⟩ 0x1000#32 0xfffffffc#32 7
      (Memory.copyData ⟨fun a => a.setWidth 8, []⟩ 0x1000#32 0xfffffffc#32 7) :=
  (copies_exactly ⟨fun a => a.setWidth 8, []⟩ 0x1000#32 0xfffffffc#32 7 (by decide)).1

end ZeOS.Practica
