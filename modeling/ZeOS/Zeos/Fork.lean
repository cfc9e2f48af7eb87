import ZeOS.Zeos.Calls
import ZeOS.Zeos.Family
import ZeOS.Zeos.ForkPages

/-!
# `sys_fork`

A fork takes the first free slot, copies the parent's struct into it and asks
for twenty frames. Without them it puts the slot back; with them it makes the
memory of the child, its struct and its lists, and puts it at the end of the
ready queue.
-/

namespace ZeOS.Zeos

open Practica (freeFrames markUsed)

namespace Kernel

variable {k : Kernel} {t : Tree} {l : Queue → List Slot} {c : Slot}

/-- The slot a fork would take is the first one of the free queue. -/
theorem nextFree_eq (h : Rings k.links l) : k.nextFree = (l .free).head? := by
  have hring := h.ring .free
  cases hfree : l .free with
  | nil =>
    rw [hfree] at hring
    have hfirst : listFirst k.links .freequeue = some .freequeue := hring.seg.1
    rw [nextFree, hfirst]
    rfl
  | cons c cs =>
    rw [hfree] at hring
    have hfirst : listFirst k.links .freequeue = some (.task c) := hring.next_head
    rw [nextFree, hfirst]
    rfl

theorem exists_nextFree (h : Rings k.links l) {s : Slot} (hs : s ∈ l .free) :
    ∃ c, k.nextFree = some c := by
  rw [nextFree_eq h]
  exact ⟨_, List.head?_eq_some_head (List.ne_nil_of_mem hs)⟩

/-- The pointers of the families once those of the parent have been copied. -/
def copyKin (h : Links Kin) (parent child : Slot) : Links Kin :=
  Function.update (Function.update h (.childs child) (h (.childs parent))) (.aParentList child)
    (h (.aParentList parent))

theorem copyKin_of_ne (h : Links Kin) (parent : Slot) {child : Slot} {y : Kin}
    (h₁ : y ≠ .childs child) (h₂ : y ≠ .aParentList child) : copyKin h parent child y = h y := by
  rw [copyKin, Function.update_of_ne h₂, Function.update_of_ne h₁]

/-- The state with a slot taken for a child, its struct that of the parent. -/
def reserve (k : Kernel) (c : Slot) : Kernel := ((k.unlink (.task c)).copyUnion c).allocateDir c

/-- **Taking a slot for a child.** -/
theorem reserve_spec (h : k.Queued t l) (hc : c ∈ l .free) :
    ∃ h' l', k.reserve c = { k with
        links := h'
        family := copyKin k.family k.current c
        task := Function.update k.task c { k.task k.current with dirPagesBaseAddr := c } }
      ∧ (k.reserve c).WaitingBut t l' c ∧ (∀ q, c ∉ l' q)
      ∧ ∀ u, u ≠ c → ∀ q, u ∈ l' q ↔ u ∈ l q := by
  obtain ⟨h₁, l', hunlink, hw, -, hnot, hmem⟩ := (h.toWaiting.but c).take hc
  have heq : k.reserve c = { k with
      links := Function.update h₁ (.task c) (h₁ (.task k.current))
      family := copyKin k.family k.current c
      task := Function.update k.task c { k.task k.current with dirPagesBaseAddr := c } } := by
    rw [reserve, hunlink]
    simp only [copyUnion, allocateDir, modifyTask, Function.update_self, Function.update_idem]
    rfl
  refine ⟨_, l', heq, ?_, hnot, hmem⟩
  rw [heq]
  exact hw.relink hnot (fun y hy => Function.update_of_ne hy _ h₁) rfl
    (fun u hu => Function.update_of_ne hu _ k.task)

/-- **A fork given up** puts the slot back at the end of the free queue. -/
theorem giveUp_spec (h : k.Queued t l) (hc : c ∈ l .free) (m : Mm) :
    ∃ h' l', ({ k.reserve c with mm := m } : Kernel).linkTail (.task c) .freequeue = { k with
        mm := m
        links := h'
        family := copyKin k.family k.current c
        task := Function.update k.task c { k.task k.current with dirPagesBaseAddr := c } }
      ∧ (({ k.reserve c with mm := m } : Kernel).linkTail (.task c) .freequeue).Queued t l' := by
  obtain ⟨h₁, l₁, heq, hw, hnot, hmem⟩ := reserve_spec h hc
  have hdead : ¬ k.Tended t c := (h.settled c).free hc
  have hcc : k.current ≠ c := fun he => hdead (he ▸ h.current_tended)
  rw [heq] at hw ⊢
  set k₁ : Kernel := { k with
    mm := m
    links := h₁
    family := copyKin k.family k.current c
    task := Function.update k.task c { k.task k.current with dirPagesBaseAddr := c } } with hk₁
  have hw₁ : k₁.WaitingBut t l₁ c := hw.congr rfl rfl (fun _ _ => rfl) (fun _ _ => Iff.rfl)
  obtain ⟨h₂, hadd, hw₂, hq⟩ := hw₁.push .free hnot
  have htask : k₁.task k.current = k.task k.current := Function.update_of_ne hcc _ k.task
  have hin : ∀ q, k.current ∈ Function.update l₁ .free (l₁ .free ++ [c]) q ↔ k.current ∈ l q := by
    intro q
    rw [Function.update_apply, ← hmem _ hcc]
    split_ifs with he
    · simp [he, hcc]
    · rfl
  have hsettled : ({ k₁ with links := h₂ } : Kernel).Settled t
      (Function.update l₁ .free (l₁ .free ++ [c])) c :=
    ⟨fun _ => hdead, fun hm => absurd ((hq .ready).mp hm) nofun,
      fun hm => absurd ((hq .blocked).mp hm) nofun, fun ha => absurd (Or.inl ha) hdead,
      fun ht => absurd ht hdead, fun ht => absurd ht hdead, fun ht => absurd ht hdead⟩
  rw [show k₁.linkTail (.task c) .freequeue = { k₁ with links := h₂ } from hadd]
  exact ⟨h₂, Function.update l₁ .free (l₁ .free ++ [c]), rfl,
    { hw₂.waiting hsettled with
      current_free := (not_congr (hin .free)).mpr h.current_free
      current_ready := (not_congr (hin .ready)).mpr h.current_ready
      current_tended := h.current_tended
      current_state := fun hn => by
        show (k₁.task k.current).state = .run
        rw [htask]
        exact h.current_state (fun hm => hn ((hin .blocked).mpr hm))
      cr3 := h.cr3 }⟩

/-- The struct of a child. -/
def childStruct (k : Kernel) (c : Slot) : TaskStruct where
  pid := k.startingPid + 1
  dirPagesBaseAddr := c
  state := .ready
  quantum := (k.task k.current).quantum
  pendingUnblocks := 0
  pParent := some k.current

/-- **A fork completed** puts the child at the end of the ready queue. -/
theorem startChild_spec (h : k.Queued t l) (hc : c ∈ l .free) (m : Mm) {h₃ : Links Kin}
    (hkin : listAddTail (initListHead (copyKin k.family k.current c) (.childs c))
      (.aParentList c) (.childs k.current) = some h₃) :
    ∃ h' l', (({ k.reserve c with mm := m } : Kernel).setCr3 k.current).startChild c = { k with
        mm := m
        links := h'
        family := h₃
        task := Function.update k.task c (k.childStruct c)
        startingPid := k.startingPid + 1
        cr3 := k.current
        stuck := k.stuck || decide (k.startingPid = intMax) }
      ∧ ((({ k.reserve c with mm := m } : Kernel).setCr3 k.current).startChild c).Queued
        (t.fork k.current c) l'
      ∧ c ∈ l' .ready ∧ ∀ u, u ≠ c → ∀ q, u ∈ l' q ↔ u ∈ l q := by
  obtain ⟨h₁, l₁, heq, hw, hnot, hmem⟩ := reserve_spec h hc
  have hdead : ¬ k.Tended t c := (h.settled c).free hc
  have hcc : k.current ≠ c := fun he => hdead (he ▸ h.current_tended)
  set k₁ : Kernel := { k with
    mm := m
    links := h₁
    family := h₃
    task := Function.update k.task c (k.childStruct c)
    startingPid := k.startingPid + 1
    cr3 := k.current
    stuck := k.stuck || decide (k.startingPid = intMax) } with hk₁
  have hstart : (({ k.reserve c with mm := m } : Kernel).setCr3 k.current).startChild c
      = k₁.linkTail (.task c) .readyqueue := by
    rw [heq]
    simp only [startChild, setCr3, modifyTask, linkKin, hkin, Function.update_self,
      Function.update_idem]
    rfl
  have hw₁ : k₁.WaitingBut (t.fork k.current c) l₁ c :=
    hw.congr (by rw [heq]) (by rw [heq]) (fun u hu => by
        rw [heq, hk₁]
        show Function.update _ c _ u = Function.update _ c _ u
        rw [Function.update_of_ne hu, Function.update_of_ne hu])
      (fun u hu => by
        rw [Tree.mem_fork]
        exact or_iff_right hu)
  have htask : k₁.task c = k.childStruct c := Function.update_self c _ k.task
  have htended : k₁.Tended (t.fork k.current c) c := Or.inl (Tree.mem_fork.mpr (Or.inl rfl))
  obtain ⟨h₂, l₂, hadd, hw₂, hlast, hmem₂⟩ := hw₁.settle (q := .ready) nofun hnot htended
    (fun he => hdead (Or.inr he)) (congrArg TaskStruct.state htask)
    (congrArg TaskStruct.dirPagesBaseAddr htask)
  have hrest : ∀ u, u ≠ c → ∀ q, u ∈ l₂ q ↔ u ∈ l q :=
    fun u hu q => (hmem₂ u hu q).trans (hmem u hu q)
  have hin := hrest _ hcc
  rw [hstart, show k₁.linkTail (.task c) .readyqueue = { k₁ with links := h₂ } from hadd]
  refine ⟨h₂, l₂, rfl, { hw₂ with
    current_free := (not_congr (hin .free)).mpr h.current_free
    current_ready := (not_congr (hin .ready)).mpr h.current_ready
    current_tended := h.current_tended.imp (fun ha => Tree.mem_fork.mpr (Or.inr ha)) id
    current_state := fun hn => ?_
    cr3 := rfl }, (hlast .ready).mpr rfl, hrest⟩
  show (Function.update k.task c (k.childStruct c) k.current).state = .run
  rw [Function.update_of_ne hcc]
  exact h.current_state (fun hm => hn ((hin .blocked).mpr hm))

end Kernel

end ZeOS.Zeos
