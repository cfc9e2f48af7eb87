import Mathlib.Data.Finset.Basic
import ZeOS.Zeos.Sys

/-!
# The family tree

What the lists of children are for, without pointers: which processes are
alive, and for each of them who looks after it – the process that forked it,
and the idle task once that one has exited. A `World` is a state of the
kernel with the tree its events have made; the tree reads of the kernel only
who is current, and whether a fork succeeded.
-/

namespace ZeOS.Zeos

/-- **The family tree.** -/
@[ext]
structure Tree where
  /-- The processes that have been created and have not exited. -/
  alive : Finset Slot
  /-- The parent of a process, or the idle task if the parent has exited. The
  initial process has none. -/
  guardian : Slot → Option Slot

namespace Tree

/-- A new process. -/
def fork (t : Tree) (parent child : Slot) : Tree where
  alive := insert child t.alive
  guardian := Function.update t.guardian child (some parent)

/-- A process exits and the idle task adopts its children. -/
def exit (t : Tree) (s idle : Slot) : Tree where
  alive := t.alive.erase s
  guardian q := if t.guardian q = some s then some idle else t.guardian q

@[simp] theorem mem_fork {t : Tree} {parent child s : Slot} :
    s ∈ (t.fork parent child).alive ↔ s = child ∨ s ∈ t.alive := Finset.mem_insert

@[simp] theorem mem_exit {t : Tree} {q idle s : Slot} :
    s ∈ (t.exit q idle).alive ↔ s ≠ q ∧ s ∈ t.alive := Finset.mem_erase

theorem guardian_fork (t : Tree) (parent child s : Slot) :
    (t.fork parent child).guardian s = if s = child then some parent else t.guardian s :=
  Function.update_apply t.guardian child (some parent) s

theorem guardian_exit (t : Tree) (q idle s : Slot) :
    (t.exit q idle).guardian s = if t.guardian s = some q then some idle else t.guardian s := rfl

/-- The children a process has, the dead ones left out. -/
def Child (t : Tree) (q s : Slot) : Prop := s ∈ t.alive ∧ t.guardian s = some q

end Tree

/-- The slot `sys_fork` would take. -/
def Kernel.nextFree (k : Kernel) : Option Slot :=
  (listFirst k.links .freequeue).bind Kernel.listHeadToTaskStruct

/-- **A state of the kernel and the tree its events have made.** -/
structure World where
  kernel : Kernel
  tree : Tree

namespace World

/-- What an event does to the tree. A fork that succeeds returns an
identifier, and identifiers are positive. -/
def grow (w : World) : Event → Tree
  | .fork =>
    match w.kernel.nextFree with
    | some child =>
      if 0 < w.kernel.sysFork.1 then w.tree.fork w.kernel.current child else w.tree
    | none => w.tree
  | .exit => w.tree.exit w.kernel.current w.kernel.idleTask
  | _ => w.tree

/-- **One event.** -/
def step (w : World) (e : Event) : Option World :=
  (w.kernel.step e).map (fun k => ⟨k, w.grow e⟩)

/-- The booted kernel and its one process. -/
def boot (ram : Location → Byte) : World where
  kernel := Kernel.boot ram
  tree := ⟨{(Kernel.boot ram).current}, fun _ => none⟩

theorem step_eq_some_iff {w w' : World} {e : Event} :
    w.step e = some w' ↔ w.kernel.step e = some w'.kernel ∧ w'.tree = w.grow e := by
  rw [step, Option.map_eq_some_iff]
  constructor
  · rintro ⟨k, hk, rfl⟩
    exact ⟨hk, rfl⟩
  · rintro ⟨hk, ht⟩
    exact ⟨w'.kernel, hk, by rw [← ht]⟩

end World

/-- **The reachable states**: those at the end of a run of events from boot,
whatever was in memory. -/
def Reachable (ram : Location → Byte) (w : World) : Prop :=
  ∃ es, Run World.step (fun _ _ => True) (World.boot ram) es w

end ZeOS.Zeos
