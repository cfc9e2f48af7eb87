import Mathlib.Data.Fintype.Basic
import Mathlib.Logic.Function.Basic
import Mathlib.Data.Nat.Notation

/-!
# The board of the game

`game.h`: the cells of the maze, the directions, and the units. A read of
`Matrix` outside of its bounds has no value, so the functions that index it
are partial.
-/

namespace ZeOS.Game

/-- `ROWS`. -/
abbrev rows : ℕ := 20

/-- `COLUMNS`. -/
abbrev columns : ℕ := 50

/-- `NPHANTOM`. -/
abbrev nphantom : ℕ := 4

/-- `MAX_QUEUE_SIZE`. -/
abbrev maxQueueSize : ℕ := rows * columns

/-- `t_cell`. -/
inductive TCell
  | wall | null | food | empty
deriving DecidableEq, Repr

/-- `t_dir`. -/
inductive TDir
  | null | up | down | left | right
deriving DecidableEq, Repr

/-- `t_utype`. -/
inductive TUtype
  | pacman | phantom
deriving DecidableEq, Repr

/-- `t_unit`. -/
structure TUnit where
  x : ℤ
  y : ℤ
  dir : TDir
  type : TUtype
deriving DecidableEq

/-- The type of `Matrix`. -/
abbrev Matrix := Fin rows → Fin columns → TCell

/-- `t_game`. The pacman has its row in `x` and its column in `y`, a phantom
its column in `x` and its row in `y`. -/
structure TGame where
  /-- Not the lives of the game, which are in a global variable. -/
  lives : ℤ
  points : ℤ
  matrix : Matrix
  pacman : TUnit
  phantom : Fin nphantom → TUnit

/-- Whether `Matrix[x][y]` is within the bounds. -/
def InRange (x y : ℤ) : Prop := 0 ≤ x ∧ x < rows ∧ 0 ≤ y ∧ y < columns

instance (x y : ℤ) : Decidable (InRange x y) :=
  inferInstanceAs (Decidable (0 ≤ x ∧ x < rows ∧ 0 ≤ y ∧ y < columns))

namespace InRange

variable {x y : ℤ}

/-- The row of an index within the bounds. -/
def row (h : InRange x y) : Fin rows :=
  ⟨x.toNat, (Int.toNat_lt h.1).mpr h.2.1⟩

/-- The column of an index within the bounds. -/
def column (h : InRange x y) : Fin columns :=
  ⟨y.toNat, (Int.toNat_lt h.2.2.1).mpr h.2.2.2⟩

end InRange

namespace Matrix

/-- `Matrix[x][y]`. -/
def read (m : Matrix) (x y : ℤ) : Option TCell :=
  if h : InRange x y then some (m h.row h.column) else none

/-- `Matrix[x][y] = cell`. -/
def write (m : Matrix) (x y : ℤ) (cell : TCell) : Option Matrix :=
  if h : InRange x y then
    some (Function.update m h.row (Function.update (m h.row) h.column cell))
  else none

/-- The index is in range and the cell is not a wall. -/
def Open (m : Matrix) (x y : ℤ) : Prop := ∃ cell, m.read x y = some cell ∧ cell ≠ .wall

variable {m : Matrix} {x y : ℤ}

theorem read_of_inRange (h : InRange x y) : m.read x y = some (m h.row h.column) :=
  dif_pos h

theorem inRange_of_read {cell : TCell} (h : m.read x y = some cell) : InRange x y := by
  unfold read at h
  by_contra hn
  rw [dif_neg hn] at h
  exact absurd h (by simp)

theorem Open.inRange (h : m.Open x y) : InRange x y :=
  let ⟨_, hread, _⟩ := h
  inRange_of_read hread

theorem Open.of_ne_wall (h : InRange x y) (hw : m h.row h.column ≠ .wall) : m.Open x y :=
  ⟨_, read_of_inRange h, hw⟩

/-- **A store within the bounds** changes the cell and no other. -/
theorem read_write (h : InRange x y) (x' y' : ℤ) (cell : TCell) :
    ∃ m', m.write x y cell = some m'
      ∧ m'.read x' y' = if x' = x ∧ y' = y then some cell else m.read x' y' := by
  refine ⟨_, dif_pos h, ?_⟩
  by_cases h' : InRange x' y'
  · rw [read_of_inRange h', read_of_inRange h']
    have hrow : h'.row = h.row ↔ x' = x := by
      have h1 := h.1
      have h2 := h'.1
      rw [InRange.row, InRange.row, Fin.mk.injEq]
      omega
    have hcol : h'.column = h.column ↔ y' = y := by
      have h1 := h.2.2.1
      have h2 := h'.2.2.1
      rw [InRange.column, InRange.column, Fin.mk.injEq]
      omega
    by_cases hx : x' = x
    · rw [hrow.mpr hx, Function.update_self]
      by_cases hy : y' = y
      · rw [if_pos ⟨hx, hy⟩, hcol.mpr hy, Function.update_self]
      · rw [if_neg (fun hc => hy hc.2), Function.update_of_ne (fun hc => hy (hcol.mp hc))]
    · rw [if_neg (fun hc => hx hc.1), Function.update_of_ne (fun hc => hx (hrow.mp hc))]
  · have hne : ¬ (x' = x ∧ y' = y) := fun hc => h' (hc.1 ▸ hc.2 ▸ h)
    rw [if_neg hne]
    unfold read
    rw [dif_neg h', dif_neg h']

end Matrix

/-- The cell next to `(x, y)` in a direction, row first. -/
def TDir.ahead (x y : ℤ) : TDir → ℤ × ℤ
  | .null => (x, y)
  | .up => (x - 1, y)
  | .down => (x + 1, y)
  | .left => (x, y - 1)
  | .right => (x, y + 1)

end ZeOS.Game
