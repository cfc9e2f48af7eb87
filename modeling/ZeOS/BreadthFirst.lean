import Mathlib.Data.List.Basic
import Mathlib.Data.List.Nodup
import Mathlib.Order.Lattice.Nat

/-!
# Breadth-first traversals

A relation `r` gives the steps of a graph, directed and of any size. A
traversal of it from a point `a` keeps the list of the points it has found,
in the order it found them, and the position of the first one it has not
expanded yet: the points before that position have no step left that leads
to a point not found.

`Frontier` is what a traversal maintains while it takes the points in the
order of the list. The distances from `a` grow along the list and those
behind the point being expanded exceed its own by at most one, so a point
that has just been found is one step further than the one it was found
from. Nothing is asked of the order in which the steps of one point are
tried.

`Leads` is what a traversal may hand down from a point to those it finds from
it: the first step of a shortest walk.
-/

variable {α : Type*}

/-- A walk of `n` steps. -/
inductive Walk (r : α → α → Prop) : ℕ → α → α → Prop
  | nil (a : α) : Walk r 0 a a
  | snoc {n : ℕ} {a b c : α} : Walk r n a b → r b c → Walk r (n + 1) a c

namespace Walk

variable {r : α → α → Prop} {n : ℕ} {a b c : α}

/-- A walk with a step in front. -/
theorem cons (hab : r a b) (h : Walk r n b c) : Walk r (n + 1) a c := by
  induction h with
  | nil => exact Walk.snoc (Walk.nil a) hab
  | snoc _ hr ih => exact Walk.snoc (ih hab) hr

/-- Whether `b` is reached from `a`. -/
def Reaches (r : α → α → Prop) (a b : α) : Prop := ∃ n, Walk r n a b

/-- `n` is the length of a shortest walk. -/
structure Shortest (r : α → α → Prop) (n : ℕ) (a b : α) : Prop where
  walk : Walk r n a b
  le : ∀ k, Walk r k a b → n ≤ k

/-- The distance of a point that is reached. -/
noncomputable def dist (r : α → α → Prop) (a b : α) : ℕ := sInf {n | Walk r n a b}

theorem Reaches.refl (a : α) : Reaches r a a := ⟨0, Walk.nil a⟩

theorem Reaches.snoc (h : Reaches r a b) (hbc : r b c) : Reaches r a c :=
  let ⟨n, hn⟩ := h
  ⟨n + 1, Walk.snoc hn hbc⟩

theorem Reaches.walk_dist (h : Reaches r a b) : Walk r (dist r a b) a b :=
  Nat.sInf_mem h

theorem dist_le (h : Walk r n a b) : dist r a b ≤ n :=
  Nat.sInf_le h

/-- A point that is reached is at its distance. -/
theorem Reaches.shortest (h : Reaches r a b) : Shortest r (dist r a b) a b :=
  ⟨h.walk_dist, fun _ => dist_le⟩

@[simp]
theorem dist_self (a : α) : dist r a a = 0 :=
  Nat.le_zero.mp (dist_le (Walk.nil a))

theorem dist_le_succ (h : Reaches r a b) (hbc : r b c) : dist r a c ≤ dist r a b + 1 :=
  dist_le (Walk.snoc h.walk_dist hbc)

/-- A point at distance `0` is the start. -/
theorem Reaches.eq_of_dist (h : Reaches r a b) (hd : dist r a b = 0) : b = a := by
  have hw := h.walk_dist
  rw [hd] at hw
  cases hw with
  | nil => rfl

/-- A point at distance `n + 1` is one step from a point at distance `n`. -/
theorem Reaches.exists_pred (h : Reaches r a c) (hd : dist r a c = n + 1) :
    ∃ b, Reaches r a b ∧ dist r a b = n ∧ r b c := by
  have hw := h.walk_dist
  rw [hd] at hw
  cases hw with
  | snoc hab hbc =>
    refine ⟨_, ⟨n, hab⟩, le_antisymm (dist_le hab) ?_, hbc⟩
    have hle := dist_le_succ ⟨n, hab⟩ hbc
    rw [hd] at hle
    exact Nat.le_of_succ_le_succ hle

/-! ## The first step of a shortest walk -/

/-- A shortest walk from `a` to `b` begins with the step to `first`. -/
structure Leads (r : α → α → Prop) (a first b : α) : Prop where
  step : r a first
  walk : ∃ n, Walk r n first b ∧ dist r a b = n + 1

namespace Leads

variable {first : α}

/-- A point at distance `1` is its own first step. -/
theorem of_step (hac : r a c) (hd : dist r a c = 1) : Leads r a c c :=
  ⟨hac, 0, Walk.nil c, hd⟩

/-- **The first step is inherited** by what is found one step further. -/
theorem snoc (h : Leads r a first b) (hbc : r b c) (hd : dist r a c = dist r a b + 1) :
    Leads r a first c :=
  let ⟨n, hw, hn⟩ := h.walk
  ⟨h.step, n + 1, Walk.snoc hw hbc, hd.trans (congrArg (· + 1) hn)⟩

theorem reaches (h : Leads r a first b) : Reaches r a b :=
  let ⟨n, hw, _⟩ := h.walk
  ⟨n + 1, Walk.cons h.step hw⟩

theorem ne (h : Leads r a first b) : b ≠ a := by
  obtain ⟨n, -, hn⟩ := h.walk
  rintro rfl
  rw [dist_self] at hn
  exact Nat.succ_ne_zero n hn.symm

/-- **After the first step the rest is as short as it can be.** -/
theorem shortest (h : Leads r a first b) :
    ∃ n, Shortest r (n + 1) a b ∧ Shortest r n first b := by
  obtain ⟨n, hw, hn⟩ := h.walk
  have hle : ∀ k, Walk r k a b → n + 1 ≤ k := fun k hk => hn ▸ dist_le hk
  refine ⟨n, ⟨Walk.cons h.step hw, hle⟩, hw, ?_⟩
  intro k hk
  exact Nat.le_of_succ_le_succ (hle _ (Walk.cons h.step hk))

end Leads

end Walk

section Traversal

open Walk

/-- **What a breadth-first traversal maintains**: the points found, of which
those before `front` have been expanded. -/
structure Frontier (r : α → α → Prop) (a : α) (found : List α) (front : ℕ) : Prop where
  nodup : found.Nodup
  source : a ∈ found
  reached : ∀ b ∈ found, Reaches r a b
  sorted : found.Pairwise (fun b c => dist r a b ≤ dist r a c)
  near : ∀ b, found[front]? = some b → ∀ c ∈ found, dist r a c ≤ dist r a b + 1
  closed : ∀ b ∈ found.take front, ∀ c, r b c → c ∈ found

namespace Frontier

variable {r : α → α → Prop} {a b c : α} {found : List α} {front : ℕ}

/-- The start alone. -/
theorem start (r : α → α → Prop) (a : α) : Frontier r a [a] 0 where
  nodup := List.nodup_singleton a
  source := List.mem_singleton_self a
  reached := by
    intro b hb
    rw [List.mem_singleton.mp hb]
    exact Reaches.refl a
  sorted := List.pairwise_singleton _ a
  near := by
    intro b _ c hc
    rw [List.mem_singleton.mp hc, dist_self]
    exact Nat.zero_le _
  closed := fun _ hb => absurd hb List.not_mem_nil

/-- What has been found and is not expanded is no nearer than the point
being expanded. -/
theorem dist_le_of_front (hf : Frontier r a found front) (hb : found[front]? = some b)
    (hc : c ∈ found) (hn : c ∉ found.take front) : dist r a b ≤ dist r a c := by
  have hdrop : found.drop front = b :: found.drop (front + 1) := by
    obtain ⟨hlt, hget⟩ := List.getElem?_eq_some_iff.mp hb
    rw [List.drop_eq_getElem_cons hlt, hget]
  have hsplit := hf.sorted
  rw [← List.take_append_drop front found, hdrop] at hsplit hc
  rcases List.mem_append.mp hc with hold | hrest
  · exact absurd hold hn
  · rcases List.mem_cons.mp hrest with rfl | hlater
    · exact le_rfl
    · exact (List.pairwise_cons.mp (List.pairwise_append.mp hsplit).2.1).1 c hlater

/-- **Nothing near is missing**: what is no further than the point being
expanded has been found. -/
theorem mem_of_dist_le (hf : Frontier r a found front) (hb : found[front]? = some b)
    (hc : Reaches r a c) (hle : dist r a c ≤ dist r a b) : c ∈ found := by
  generalize hn : dist r a c = n at hle
  induction n generalizing c with
  | zero =>
    rw [hc.eq_of_dist hn]
    exact hf.source
  | succ n ih =>
    obtain ⟨p, hp, hpn, hpc⟩ := hc.exists_pred hn
    have hmem : p ∈ found := ih hp hpn (Nat.le_of_succ_le hle)
    by_cases hold : p ∈ found.take front
    · exact hf.closed p hold c hpc
    · have hback := hf.dist_le_of_front hb hmem hold
      rw [hpn] at hback
      exact absurd hle (Nat.not_le_of_lt (Nat.lt_succ_of_le hback))

/-- **A new point is one step further** than the point it is found from. -/
theorem dist_eq (hf : Frontier r a found front) (hb : found[front]? = some b) (hbc : r b c)
    (hnew : c ∉ found) : dist r a c = dist r a b + 1 := by
  have hreach := hf.reached b (List.mem_of_getElem? hb)
  have hfar : ¬ dist r a c ≤ dist r a b :=
    fun hle => hnew (hf.mem_of_dist_le hb (hreach.snoc hbc) hle)
  exact le_antisymm (dist_le_succ hreach hbc) (not_le.mp hfar)

/-- **Finding a point.** -/
theorem push (hf : Frontier r a found front) (hb : found[front]? = some b) (hbc : r b c)
    (hnew : c ∉ found) : Frontier r a (found ++ [c]) front := by
  have hd := hf.dist_eq hb hbc hnew
  have hlt : front < found.length := (List.getElem?_eq_some_iff.mp hb).1
  have hb' : (found ++ [c])[front]? = some b := by
    rw [List.getElem?_append_left hlt, hb]
  refine ⟨?_, List.mem_append_left _ hf.source, ?_, ?_, ?_, ?_⟩
  · rw [List.nodup_append]
    refine ⟨hf.nodup, List.nodup_singleton c, ?_⟩
    intro x hx y hy hxy
    rw [List.mem_singleton.mp hy] at hxy
    exact hnew (hxy ▸ hx)
  · intro x hx
    rcases List.mem_append.mp hx with hold | hlast
    · exact hf.reached x hold
    · rw [List.mem_singleton.mp hlast]
      exact (hf.reached b (List.mem_of_getElem? hb)).snoc hbc
  · rw [List.pairwise_append]
    refine ⟨hf.sorted, List.pairwise_singleton _ c, ?_⟩
    intro x hx y hy
    rw [List.mem_singleton.mp hy, hd]
    exact hf.near b hb x hx
  · intro x hx y hy
    rw [hb', Option.some_inj] at hx
    rw [← hx]
    rcases List.mem_append.mp hy with hold | hlast
    · exact hf.near b hb y hold
    · rw [List.mem_singleton.mp hlast, hd]
  · intro x hx y hxy
    rw [List.take_append_of_le_length hlt.le] at hx
    exact List.mem_append_left _ (hf.closed x hx y hxy)

/-- **Leaving a point** whose steps have all been tried. -/
theorem advance (hf : Frontier r a found front) (hb : found[front]? = some b)
    (hdone : ∀ c, r b c → c ∈ found) : Frontier r a found (front + 1) := by
  have htake : found.take (front + 1) = found.take front ++ [b] := by
    rw [List.take_add_one, hb]
    rfl
  refine ⟨hf.nodup, hf.source, hf.reached, hf.sorted, ?_, ?_⟩
  · intro x hx y hy
    have hxmem := List.mem_of_getElem? hx
    have hback : dist r a b ≤ dist r a x := by
      obtain ⟨hlt, hget⟩ := List.getElem?_eq_some_iff.mp hb
      obtain ⟨hlt', hget'⟩ := List.getElem?_eq_some_iff.mp hx
      rw [← hget, ← hget']
      exact List.pairwise_iff_getElem.mp hf.sorted _ _ hlt hlt' (Nat.lt_succ_self front)
    exact (hf.near b hb y hy).trans (Nat.succ_le_succ hback)
  · intro x hx y hxy
    rw [htake] at hx
    rcases List.mem_append.mp hx with hold | hlast
    · exact hf.closed x hold y hxy
    · rw [List.mem_singleton.mp hlast] at hxy
      exact hdone y hxy

/-- **A traversal with nothing left to expand has found everything.** -/
theorem mem_of_reaches (hf : Frontier r a found front) (hend : found.length ≤ front)
    (h : Reaches r a b) : b ∈ found := by
  obtain ⟨n, hw⟩ := h
  induction hw with
  | nil => exact hf.source
  | snoc _ hbc ih =>
    have hb := ih hf
    rw [← List.take_of_length_le hend] at hb
    exact hf.closed _ hb _ hbc

end Frontier

end Traversal
