import Mathlib.Data.List.Range
import Mathlib.Logic.Function.Basic

/-!
# Ring buffers

A ring buffer holds a queue in an array of `cap` cells: `n` elements from
cell `r` on, wrapping around at the end. What is in the other cells does not
matter. The two moves of a queue are a write one past the last element and a
step of `r`, and the queue they act on is `ringContents`.
-/

variable {α : Type*}

/-- The queue in the `n` cells from `r` on of an array of `cap` cells. -/
def ringContents (cap : ℕ) (buf : ℕ → α) (r n : ℕ) : List α :=
  (List.range n).map (fun i => buf ((r + i) % cap))

namespace ringContents

variable {cap : ℕ} {buf : ℕ → α} {r n : ℕ}

@[simp] theorem length : (ringContents cap buf r n).length = n := by
  rw [ringContents, List.length_map, List.length_range]

theorem zero : ringContents cap buf r 0 = [] := rfl

theorem eq_nil_iff : ringContents cap buf r n = [] ↔ n = 0 := by
  rw [← List.length_eq_zero_iff, length]

/-- Two offsets below the capacity lead to different cells. -/
theorem index_ne {i j : ℕ} (hij : i < j) (hj : j < cap) : (r + i) % cap ≠ (r + j) % cap := by
  intro h
  have hsub := Nat.sub_mod_eq_zero_of_mod_eq h.symm
  rw [Nat.add_sub_add_left, Nat.mod_eq_of_lt (by omega)] at hsub
  omega

/-- **A write past the last element appends**, if there is a cell for it. -/
theorem push (x : α) (hn : n < cap) :
    ringContents cap (Function.update buf ((r + n) % cap) x) r (n + 1)
      = ringContents cap buf r n ++ [x] := by
  unfold ringContents
  rw [List.range_succ, List.map_append, List.map_singleton, Function.update_self]
  refine congrArg (· ++ [x]) (List.map_congr_left fun i hi => ?_)
  exact Function.update_of_ne (index_ne (List.mem_range.mp hi) hn) _ _

/-- **A step of the start drops the first element.** -/
theorem pop : ringContents cap buf r (n + 1)
    = buf (r % cap) :: ringContents cap buf ((r + 1) % cap) n := by
  unfold ringContents
  rw [List.range_succ_eq_map, List.map_cons, List.map_map, Nat.add_zero]
  refine congrArg _ (List.map_congr_left fun i _ => ?_)
  simp only [Function.comp_apply, Nat.succ_eq_add_one, Nat.mod_add_mod]
  rw [Nat.add_assoc, Nat.add_comm 1 i]

end ringContents
