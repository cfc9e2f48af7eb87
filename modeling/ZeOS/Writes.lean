import Mathlib.Data.List.Range
import Mathlib.Logic.Function.Basic

/-!
# Runs of writes

A store maps places to values and a run of writes updates it place by place,
in order; places may repeat. What is stored afterwards is decided place by
place: the value of the last write to it, or the old value where none was.

Two writes exchange the values of two places, and exchanges from both ends
towards the middle reverse what is stored in a row.
-/

variable {L V : Type*} [DecidableEq L]

/-- The store after `n` writes, the `i`-th of `vals i` to `locs i`. -/
def writeRun (ram : L → V) (locs : ℕ → L) (vals : ℕ → V) : ℕ → L → V
  | 0 => ram
  | n + 1 => Function.update (writeRun ram locs vals n) (locs n) (vals n)

namespace writeRun

variable {ram : L → V} {locs : ℕ → L} {vals : ℕ → V} {n : ℕ} {x : L}

/-- A place no write goes to keeps its value. -/
theorem of_notMem (h : ∀ i < n, locs i ≠ x) : writeRun ram locs vals n x = ram x := by
  induction n with
  | zero => rfl
  | succ n ih =>
    rw [writeRun, Function.update_of_ne (h n (Nat.lt_succ_self n)).symm,
      ih (fun i hi => h i (Nat.lt_succ_of_lt hi))]

/-- **The last write to a place decides.** -/
theorem of_last {i : ℕ} (hi : i < n) (hx : locs i = x)
    (hlast : ∀ j, i < j → j < n → locs j ≠ x) : writeRun ram locs vals n x = vals i := by
  induction n with
  | zero => exact absurd hi (Nat.not_lt_zero i)
  | succ n ih =>
    rw [writeRun]
    rcases Nat.lt_succ_iff_lt_or_eq.mp hi with hlt | rfl
    · rw [Function.update_of_ne (hlast n hlt (Nat.lt_succ_self n)).symm]
      exact ih hlt (fun j hij hj => hlast j hij (Nat.lt_succ_of_lt hj))
    · rw [← hx, Function.update_self]

/-- Every place a write goes to has a last one. -/
theorem exists_last (h : ∃ i < n, locs i = x) :
    ∃ i < n, locs i = x ∧ ∀ j, i < j → j < n → locs j ≠ x := by
  induction n with
  | zero => exact absurd h (by simp)
  | succ n ih =>
    by_cases hn : locs n = x
    · exact ⟨n, Nat.lt_succ_self n, hn, fun j hj hjn => by omega⟩
    · obtain ⟨i, hi, hx⟩ := h
      have hin : i < n := by
        rcases Nat.lt_succ_iff_lt_or_eq.mp hi with hlt | rfl
        · exact hlt
        · exact absurd hx hn
      obtain ⟨k, hk, hkx, hlast⟩ := ih ⟨i, hin, hx⟩
      refine ⟨k, Nat.lt_succ_of_lt hk, hkx, fun j hkj hj => ?_⟩
      rcases Nat.lt_succ_iff_lt_or_eq.mp hj with hlt | rfl
      · exact hlast j hkj hlt
      · exact hn

/-- **A place is as before exactly when its last write stored what was
there.** -/
theorem eq_iff : writeRun ram locs vals n x = ram x ↔
    ∀ i < n, locs i = x → (∀ j, i < j → j < n → locs j ≠ x) → vals i = ram x := by
  constructor
  · intro h i hi hx hlast
    rw [← h, of_last hi hx hlast]
  · intro h
    by_cases hex : ∃ i < n, locs i = x
    · obtain ⟨i, hi, hx, hlast⟩ := exists_last hex
      rw [of_last hi hx hlast, h i hi hx hlast]
    · exact of_notMem (fun i hi hx => hex ⟨i, hi, hx⟩)

/-- Where no place repeats, every write decides. -/
theorem of_injOn {i : ℕ} (hinj : ∀ j < n, locs j = locs i → j = i) (hi : i < n) :
    writeRun ram locs vals n (locs i) = vals i :=
  of_last hi rfl (fun j hij hj he => absurd (hinj j hj he) (Nat.ne_of_gt hij))

end writeRun

/-! ## Reversal in place -/

section Reversal

variable {W : Type*} {f : ℕ → W} {n k : ℕ}

/-- The values of two places exchanged. -/
def exchange (f : ℕ → W) (i j : ℕ) : ℕ → W :=
  Function.update (Function.update f i (f j)) j (f i)

/-- The first `n` places with the first and the last `k` of them mirrored. -/
def mirrored (f : ℕ → W) (n k : ℕ) : ℕ → W := fun j =>
  if j < k ∨ n - k ≤ j ∧ j < n then f (n - 1 - j) else f j

theorem mirrored_zero (f : ℕ → W) (n : ℕ) : mirrored f n 0 = f :=
  funext fun _ => if_neg (by omega)

theorem mirrored_of_between {j : ℕ} (h₁ : k ≤ j) (h₂ : j < n - k) : mirrored f n k j = f j :=
  if_neg (by omega)

/-- **One exchange** mirrors one more place at either end. -/
theorem exchange_mirrored (hk : k < n / 2) :
    exchange (mirrored f n k) k (n - k - 1) = mirrored f n (k + 1) := by
  funext j
  rw [exchange, mirrored_of_between le_rfl (by omega), mirrored_of_between (by omega) (by omega),
    Function.update_apply, Function.update_apply]
  by_cases hlast : j = n - k - 1
  · rw [if_pos hlast, mirrored, if_pos (by omega), show n - 1 - j = k by omega]
  · rw [if_neg hlast]
    by_cases hfirst : j = k
    · rw [if_pos hfirst, mirrored, if_pos (by omega), show n - 1 - j = n - k - 1 by omega]
    · rw [if_neg hfirst]
      exact if_congr (by omega) rfl rfl

/-- **From the ends to the middle**, which stays where it is if `n` is odd. -/
theorem mirrored_half (f : ℕ → W) (n j : ℕ) :
    mirrored f n (n / 2) j = if j < n then f (n - 1 - j) else f j := by
  rw [mirrored]
  by_cases hj : j < n
  · rw [if_pos hj]
    by_cases hmid : j < n / 2 ∨ n - n / 2 ≤ j ∧ j < n
    · rw [if_pos hmid]
    · rw [if_neg hmid, show n - 1 - j = j by omega]
  · rw [if_neg hj, if_neg (by omega)]

/-- What is stored in a row is reversed. -/
theorem map_mirrored_half (f : ℕ → W) (n : ℕ) :
    (List.range n).map (mirrored f n (n / 2)) = ((List.range n).map f).reverse := by
  refine List.ext_getElem (by simp) fun j hj _ => ?_
  have hjn : j < n := by simpa using hj
  rw [List.getElem_reverse, List.getElem_map, List.getElem_map, List.getElem_range,
    List.getElem_range, mirrored_half, if_pos hjn, List.length_map, List.length_range]

end Reversal
