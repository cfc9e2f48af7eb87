import Mathlib.Data.List.Nodup
import ZeOS.Practica.Sched

/-!
# Schedules

What the scheduler is for, without its pointers: which task runs, which
wait, which slots are free, and the process identifiers. A `Schedule`
carries the partition of the slots as fields, so that the four moves of the
kernel – a rotation, a new process, a fork given up, an exit – are moves
between partitions by construction.

`Sched.Threads` connects a state of `sched.c` with the schedule its pointers
describe. The lemmas on `sched.c` show that the code follows the moves.
-/

namespace ZeOS.Practica

/-- **A schedule**: every slot is in exactly one place. -/
@[ext]
structure Schedule where
  /-- The free slots, in the order they are handed out. -/
  free : List Slot
  /-- The ready tasks, in the order they will run. -/
  ready : List Slot
  current : Slot
  idle : Slot
  pid : Slot → ℤ
  /-- The identifier given last. -/
  lastPid : ℤ
  nodup_free : free.Nodup
  nodup_ready : ready.Nodup
  disjoint : ∀ s ∈ free, s ∉ ready
  current_notMem : current ∉ free ∧ current ∉ ready
  idle_notMem : idle ∉ free ∧ idle ∉ ready
  cover : ∀ s, s ∈ free ∨ s ∈ ready ∨ s = current ∨ s = idle
  /-- Where the idle task runs, nobody waits. -/
  idle_alone : current = idle → ready = []

namespace Schedule

/-- The live processes: the current one, the idle one, the ready ones. -/
def Live (a : Schedule) (s : Slot) : Prop := s = a.current ∨ s = a.idle ∨ s ∈ a.ready

instance (a : Schedule) : DecidablePred a.Live :=
  fun _ => inferInstanceAs (Decidable (_ ∨ _ ∨ _))

/-- A slot is live exactly when it is not free. -/
theorem live_iff (a : Schedule) (s : Slot) : a.Live s ↔ s ∉ a.free := by
  constructor
  · rintro (rfl | rfl | h)
    · exact a.current_notMem.1
    · exact a.idle_notMem.1
    · exact fun hf => a.disjoint s hf h
  · intro h
    rcases a.cover s with hf | hr | hc | hi
    · exact absurd hf h
    · exact Or.inr (Or.inr hr)
    · exact Or.inl hc
    · exact Or.inr (Or.inl hi)

/-- The user processes: the live ones other than the idle task. -/
def User (a : Schedule) (s : Slot) : Prop := s ∉ a.free ∧ s ≠ a.idle

instance (a : Schedule) : DecidablePred a.User :=
  fun s => inferInstanceAs (Decidable (s ∉ a.free ∧ s ≠ a.idle))

theorem live_iff_user (a : Schedule) (s : Slot) : a.Live s ↔ a.User s ∨ s = a.idle := by
  rw [live_iff, User]
  constructor
  · intro h
    by_cases hi : s = a.idle
    · exact Or.inr hi
    · exact Or.inl ⟨h, hi⟩
  · rintro (h | rfl)
    · exact h.1
    · exact a.idle_notMem.1

theorem user_current (a : Schedule) (h : a.current ≠ a.idle) : a.User a.current :=
  ⟨a.current_notMem.1, h⟩

theorem live_current (a : Schedule) : a.Live a.current := Or.inl rfl

/-- The first free slot is nowhere else. -/
theorem first_free (a : Schedule) {c : Slot} {cs : List Slot} (hc : a.free = c :: cs) :
    c ∉ cs ∧ c ∉ a.ready ∧ a.current ≠ c := by
  have hnd := a.nodup_free
  rw [hc] at hnd
  exact ⟨(List.nodup_cons.mp hnd).1, a.disjoint c (hc ▸ List.mem_cons_self),
    fun he => a.current_notMem.1 (hc ▸ he ▸ List.mem_cons_self)⟩

/-- **Rotation**: the current task goes to the end of the line and the first
one in it runs. The idle task is current only when nobody waits. -/
def rotate (a : Schedule) : Schedule :=
  match h : a.ready with
  | [] => a
  | t :: ts =>
    { a with
      ready := ts ++ [a.current]
      current := t
      nodup_ready := by
        have := a.nodup_ready
        have := a.current_notMem
        grind
      disjoint := by
        have := a.disjoint
        have := a.current_notMem
        grind
      current_notMem := by
        have := a.nodup_ready
        have := a.disjoint
        have := a.current_notMem
        grind
      idle_notMem := by
        have := a.idle_notMem
        have := a.idle_alone
        grind
      cover := by
        intro s
        have := a.cover s
        grind
      idle_alone := by
        have := a.idle_notMem
        grind }

/-- Read on the line the current task has joined, both cases are one. -/
theorem rotate_eq (a : Schedule) :
    a.rotate.free = a.free ∧ a.rotate.idle = a.idle ∧ a.rotate.pid = a.pid
      ∧ a.rotate.lastPid = a.lastPid
      ∧ a.rotate.ready = (a.ready ++ [a.current]).tail
      ∧ a.rotate.current = (a.ready ++ [a.current]).headD a.idle := by
  unfold rotate
  split
  · rename_i h
    simp [h]
  · rename_i t ts h
    simp [h]

theorem live_rotate (a : Schedule) (s : Slot) : a.rotate.Live s ↔ a.Live s := by
  rw [live_iff, live_iff, a.rotate_eq.1]

/-- **A new process** in the first free slot, at the end of the line. -/
def spawn (a : Schedule) (c : Slot) (cs : List Slot) (h : a.free = c :: cs)
    (hi : a.current ≠ a.idle) : Schedule :=
  { a with
    free := cs
    ready := a.ready ++ [c]
    pid := Function.update a.pid c (a.lastPid + 1)
    lastPid := a.lastPid + 1
    nodup_free := by
      have := a.nodup_free
      grind
    nodup_ready := by
      have := a.nodup_ready
      have := a.disjoint
      grind
    disjoint := by
      have := a.disjoint
      have := a.nodup_free
      grind
    current_notMem := by
      have := a.current_notMem
      grind
    idle_notMem := by
      have := a.idle_notMem
      grind
    cover := by
      intro s
      have := a.cover s
      grind
    idle_alone := fun hc => absurd hc hi }

/-- **A fork given up**: the slot goes to the end of the free ones, with the
identifier the copy of the parent's struct has left in it. -/
def giveUp (a : Schedule) (c : Slot) (cs : List Slot) (h : a.free = c :: cs) : Schedule :=
  { a with
    free := cs ++ [c]
    pid := Function.update a.pid c (a.pid a.current)
    nodup_free := by
      have := a.nodup_free
      grind
    disjoint := by
      have := a.disjoint
      grind
    current_notMem := by
      have := a.current_notMem
      grind
    idle_notMem := by
      have := a.idle_notMem
      grind
    cover := by
      intro s
      have := a.cover s
      grind }

/-- **An exit**: the slot of the current task becomes free, and the first
ready task runs, or the idle task. -/
def retire (a : Schedule) (hi : a.current ≠ a.idle) : Schedule :=
  { a with
    free := a.free ++ [a.current]
    ready := a.ready.tail
    current := a.ready.headD a.idle
    pid := Function.update a.pid a.current (-1)
    nodup_free := by
      have := a.nodup_free
      have := a.current_notMem
      grind
    nodup_ready := a.nodup_ready.sublist (List.tail_sublist _)
    disjoint := by
      have := a.disjoint
      have := a.current_notMem
      cases h : a.ready <;> grind
    current_notMem := by
      have := a.disjoint
      have := a.nodup_ready
      have := a.current_notMem
      have := a.idle_notMem
      cases h : a.ready <;> grind
    idle_notMem := by
      have := a.idle_notMem
      cases h : a.ready <;> grind
    cover := by
      intro s
      have := a.cover s
      cases h : a.ready <;> grind
    idle_alone := by
      have := a.idle_notMem
      cases h : a.ready <;> grind }

/-! ## The user processes after a move -/

variable {a : Schedule} {s : Slot}

theorem user_rotate : a.rotate.User s ↔ a.User s := by
  rw [User, User, a.rotate_eq.1, a.rotate_eq.2.1]

theorem user_spawn {c : Slot} {cs : List Slot} (h : a.free = c :: cs)
    (hi : a.current ≠ a.idle) : (a.spawn c cs h hi).User s ↔ a.User s ∨ s = c := by
  have hnd := a.nodup_free
  have hidle := a.idle_notMem.1
  rw [h] at hnd hidle
  show (s ∉ cs ∧ s ≠ a.idle) ↔ (s ∉ a.free ∧ s ≠ a.idle) ∨ s = c
  rw [h, List.mem_cons]
  constructor
  · rintro ⟨hs, hne⟩
    by_cases hc : s = c
    · exact Or.inr hc
    · exact Or.inl ⟨fun hm => hm.elim hc hs, hne⟩
  · rintro (⟨hs, hne⟩ | rfl)
    · exact ⟨fun hm => hs (Or.inr hm), hne⟩
    · exact ⟨(List.nodup_cons.mp hnd).1, fun he => hidle (he ▸ List.mem_cons_self)⟩

theorem mem_free_giveUp {c : Slot} {cs : List Slot} (h : a.free = c :: cs) :
    s ∈ (a.giveUp c cs h).free ↔ s ∈ a.free := by
  rw [h]
  simp [giveUp, or_comm]

theorem user_giveUp {c : Slot} {cs : List Slot} (h : a.free = c :: cs) :
    (a.giveUp c cs h).User s ↔ a.User s := and_congr (not_congr (mem_free_giveUp h)) Iff.rfl

theorem mem_free_retire (hi : a.current ≠ a.idle) :
    s ∈ (a.retire hi).free ↔ s ∈ a.free ∨ s = a.current := by
  simp [retire]

theorem user_retire (hi : a.current ≠ a.idle) :
    (a.retire hi).User s ↔ a.User s ∧ s ≠ a.current := by
  rw [User, mem_free_retire, User]
  show (¬ (s ∈ a.free ∨ s = a.current) ∧ s ≠ a.idle) ↔ _
  tauto

end Schedule

end ZeOS.Practica
