import Mathlib.Data.BitVec

/-!
# A byte memory read and written by words

Addresses are 32 bits wide and wrap, a word is four bytes, the low one first.
A block of addresses is the distance to its first one, so that it may wrap
too and no bound on the address is needed anywhere: what is needed of two
blocks is that they share no address.

`Words m a ws` says which words are found from `a` on. It is what a stack
holds; `words_pushes` is the one fact about pushing that is used.
-/

namespace X86

abbrev Octet := BitVec 8
abbrev Word32 := BitVec 32

/-- A linear address space. -/
abbrev LinearMemory := Word32 → Octet

variable {m m' : LinearMemory} {a b x : Word32} {n k : ℕ} {v w : Word32} {vs ws : List Word32}

/-- The word at an address. -/
def load (m : LinearMemory) (a : Word32) : Word32 :=
  m (a + 3) ++ m (a + 2) ++ m (a + 1) ++ m a

/-- A word written at an address. -/
def store (m : LinearMemory) (a v : Word32) : LinearMemory := fun x =>
  if x = a then v.extractLsb' 0 8
  else if x = a + 1 then v.extractLsb' 8 8
  else if x = a + 2 then v.extractLsb' 16 8
  else if x = a + 3 then v.extractLsb' 24 8
  else m x

/-! ## Blocks -/

/-- The `n` addresses from `a` on. -/
def Block (a : Word32) (n : ℕ) (x : Word32) : Prop := (x - a).toNat < n

instance : DecidablePred (Block a n) := fun _ => inferInstanceAs (Decidable (_ < _))

/-- Two blocks with no address in common. -/
def Apart (a : Word32) (n : ℕ) (b : Word32) (k : ℕ) : Prop := ∀ x, Block a n x → ¬ Block b k x

theorem Apart.symm (h : Apart a n b k) : Apart b k a n := fun x hb ha => h x ha hb

/-- Two memories that agree on a block. -/
def SameOn (a : Word32) (n : ℕ) (m m' : LinearMemory) : Prop := ∀ x, Block a n x → m' x = m x

theorem SameOn.refl (a : Word32) (n : ℕ) (m : LinearMemory) : SameOn a n m m := fun _ _ => rfl

theorem SameOn.trans {m'' : LinearMemory} (h₁ : SameOn a n m m') (h₂ : SameOn a n m' m'') :
    SameOn a n m m'' := fun x hx => (h₂ x hx).trans (h₁ x hx)

/-- **The memories that are one of `I` off a block.** -/
def Off (a : Word32) (n : ℕ) (I : LinearMemory → Prop) (m : LinearMemory) : Prop :=
  ∃ m₀, I m₀ ∧ ∀ x, ¬ Block a n x → m x = m₀ x

/-- A block within another. -/
theorem Block.mono {d : Word32} (hx : Block (a + d) n x) (hd : d.toNat + n ≤ k) : Block a k x := by
  unfold Block at *
  bv_omega

theorem SameOn.mono {d : Word32} (h : SameOn a k m m') (hd : d.toNat + n ≤ k) :
    SameOn (a + d) n m m' := fun x hx => h x (hx.mono hd)

theorem Apart.mono {d e : Word32} {l : ℕ} (h : Apart a k b l) {i : ℕ} (hd : d.toNat + n ≤ k)
    (he : e.toNat + i ≤ l) : Apart (a + d) n (b + e) i :=
  fun x ha hb => h x (ha.mono hd) (hb.mono he)

/-- Blocks one after the other. -/
theorem apart_add {d : Word32} (hd : n ≤ d.toNat) (hk : d.toNat + k ≤ 2 ^ 32) :
    Apart a n (a + d) k := by
  intro x ha hb
  unfold Block at *
  bv_omega

/-! ## Words -/

theorem load_congr (h : SameOn a 4 m m') : load m' a = load m a := by
  have hbyte : ∀ d : Word32, d.toNat < 4 → m' (a + d) = m (a + d) := fun d hd => by
    refine h _ ?_
    unfold Block
    rwa [add_sub_cancel_left]
  unfold load
  rw [hbyte 3 (by decide), hbyte 2 (by decide), hbyte 1 (by decide)]
  have h₀ := hbyte 0 (by decide)
  rw [add_zero] at h₀
  rw [h₀]

/-- What has been written is read back. -/
theorem load_store (m : LinearMemory) (a v : Word32) : load (store m a v) a = v := by
  have h₃ : store m a v (a + 3) = v.extractLsb' 24 8 := by simp [store]
  have h₂ : store m a v (a + 2) = v.extractLsb' 16 8 := by simp [store]
  have h₁ : store m a v (a + 1) = v.extractLsb' 8 8 := by simp [store]
  have h₀ : store m a v a = v.extractLsb' 0 8 := by simp [store]
  unfold load
  rw [h₃, h₂, h₁, h₀]
  ext i hi
  simp only [BitVec.getElem_append, BitVec.getElem_extractLsb']
  split_ifs <;> grind

/-- The bytes outside the word are not written. -/
theorem store_other (h : ¬ Block a 4 x) : store m a v x = m x := by
  have hne : ∀ d : Word32, d.toNat < 4 → x ≠ a + d := by
    rintro d hd rfl
    unfold Block at h
    rw [add_sub_cancel_left] at h
    exact h hd
  have h₀ := hne 0 (by decide)
  rw [add_zero] at h₀
  unfold store
  rw [if_neg h₀, if_neg (hne 1 (by decide)), if_neg (hne 2 (by decide)), if_neg (hne 3 (by decide))]

theorem sameOn_store (h : Apart b k a 4) : SameOn b k m (store m a v) :=
  fun x hx => store_other (h x hx)

theorem load_store_apart (h : Apart b 4 a 4) : load (store m a v) b = load m b :=
  load_congr (sameOn_store h)

/-- **The words from an address on.** -/
def Words (m : LinearMemory) : Word32 → List Word32 → Prop
  | _, [] => True
  | a, w :: ws => load m a = w ∧ Words m (a + 4) ws

/-- Where the memory is the same, the words are. -/
theorem Words.congr (h : Words m a ws) (hlen : 4 * ws.length ≤ n) (hn : n ≤ 2 ^ 32)
    (hs : SameOn a n m m') : Words m' a ws := by
  induction ws generalizing a n with
  | nil => trivial
  | cons w ws ih =>
    rw [List.length_cons] at hlen
    refine ⟨?_, ih h.2 (n := n - 4) (by omega) (by omega) ?_⟩
    · rw [← h.1]
      exact load_congr (fun x hx => hs x (lt_of_lt_of_le hx (by omega)))
    · exact hs.mono (show (4 : Word32).toNat + (n - 4) ≤ n by
        show 4 + (n - 4) ≤ n
        omega)

theorem Words.take (h : Words m a ws) (k : ℕ) : Words m a (ws.take k) := by
  induction ws generalizing a k with
  | nil =>
    rw [List.take_nil]
    trivial
  | cons w ws ih =>
    cases k with
    | zero => trivial
    | succ k => exact ⟨h.1, ih h.2 k⟩

/-- A word among others is overwritten. -/
theorem Words.set (h : Words m a ws) {i : ℕ} (hi : i < ws.length)
    (hlen : 4 * ws.length ≤ 2 ^ 32) :
    Words (store m (a + BitVec.ofNat 32 (4 * i)) v) a (ws.set i v) := by
  induction ws generalizing a i with
  | nil => exact absurd hi (Nat.not_lt_zero i)
  | cons w ws ih =>
    rw [List.length_cons] at hi hlen
    cases i with
    | zero =>
      have hzero : a + BitVec.ofNat 32 (4 * 0) = a := add_zero a
      rw [hzero]
      refine ⟨load_store m a v, h.2.congr (n := 4 * ws.length) (le_refl _) (by omega)
        (sameOn_store ?_)⟩
      exact (apart_add (show 4 ≤ (4 : Word32).toNat by decide)
        (show 4 + 4 * ws.length ≤ 2 ^ 32 by omega)).symm
    | succ i =>
      have hnext : a + BitVec.ofNat 32 (4 * (i + 1)) = a + 4 + BitVec.ofNat 32 (4 * i) := by
        rw [Nat.mul_succ, add_comm (4 * i) 4, BitVec.ofNat_add, ← add_assoc]
        rfl
      refine ⟨?_, ?_⟩
      · rw [load_store_apart, h.1]
        refine apart_add ?_ ?_
        · rw [BitVec.toNat_ofNat]
          omega
        · rw [BitVec.toNat_ofNat]
          omega
      · rw [hnext]
        exact ih h.2 (by omega) (by omega)

/-! ## Pushing -/

/-- Words written one below the other. -/
def pushes (m : LinearMemory) (a : Word32) : List Word32 → LinearMemory
  | [] => m
  | w :: ws => pushes (store m (a - 4) w) (a - 4) ws

/-- A word written below others leaves them. -/
theorem Words.store_below (h : Words m a ws) (hlen : 4 * ws.length + 4 ≤ 2 ^ 32) :
    Words (store m (a - 4) v) (a - 4) (v :: ws) := by
  refine ⟨load_store m (a - 4) v, ?_⟩
  rw [sub_add_cancel]
  refine h.congr (n := 4 * ws.length) (le_refl _) (by omega) (sameOn_store ?_)
  have hapart : Apart (a - 4) 4 (a - 4 + 4) (4 * ws.length) :=
    apart_add (show 4 ≤ (4 : Word32).toNat by decide) (show 4 + 4 * ws.length ≤ 2 ^ 32 by omega)
  rw [sub_add_cancel] at hapart
  exact hapart.symm

/-- **What has been pushed is found** in the opposite order, above what was
there. -/
theorem words_pushes (ws vs : List Word32) (h : Words m a vs)
    (hlen : 4 * (ws.length + vs.length) ≤ 2 ^ 32) :
    Words (pushes m a ws) (a - BitVec.ofNat 32 (4 * ws.length)) (ws.reverse ++ vs) := by
  induction ws generalizing m a vs with
  | nil =>
    show Words m (a - 0) vs
    rwa [sub_zero]
  | cons w ws ih =>
    rw [List.length_cons] at hlen
    have hnext := ih (w :: vs) (h.store_below (v := w) (by omega)) (by rw [List.length_cons]; omega)
    have hbase : a - 4 - BitVec.ofNat 32 (4 * ws.length)
        = a - BitVec.ofNat 32 (4 * (w :: ws).length) := by
      rw [List.length_cons, sub_sub, Nat.mul_succ, add_comm (4 * ws.length) 4, BitVec.ofNat_add]
      rfl
    rw [hbase] at hnext
    rw [List.reverse_cons, List.append_assoc]
    exact hnext

/-- Pushing writes nothing but the words pushed. -/
theorem pushes_other (hx : ¬ Block (a - BitVec.ofNat 32 (4 * ws.length)) (4 * ws.length) x)
    (hlen : 4 * ws.length ≤ 2 ^ 32) : pushes m a ws x = m x := by
  induction ws generalizing m a with
  | nil => rfl
  | cons w ws ih =>
    rw [List.length_cons] at hx hlen
    refine (ih (a := a - 4) (fun hb => hx ?_) (by omega)).trans (store_other (fun hb => hx ?_))
    · unfold Block at *
      bv_omega
    · unfold Block at *
      bv_omega

end X86
