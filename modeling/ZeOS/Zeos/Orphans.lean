import ZeOS.Zeos.Turns

/-!
# The lists of children, in a run

What the lists are for is said by `FamilyLists`: each is a ring of live
processes, and a process is in the list of the one who looks after it and in
no other.

`sys_exit` means to hand the children of the dying process on to the idle
task. It inserts the head of the idle task's list into the ring of the
children, as if that head were a node in no list, and takes out the head of
the dying process. What the idle task had before is then in no list any more:
the head has been moved, and its old neighbours are left pointing at it. So
the lists stay as they should exactly while each exit finds the idle task
without children, not counting the process that exits.
-/

namespace ZeOS.Zeos

open Practica (freeFrames frameScan)

/-- The nodes found from the head of a task's list on. -/
def Kernel.children (k : Kernel) (q : Slot) : List Kin :=
  k.family.walk (.childs q) (2 * nrTasks + 1) (.childs q)

theorem Kernel.children_eq {k : Kernel} {q : Slot} {cs : List Slot}
    (h : k.family.IsRing (.childs q) (anchors cs)) : k.children q = anchors cs :=
  walk_childs h

namespace World

variable {w w' : World}

/-- The tasks whose lists are in use. -/
def Heads (w : World) (q : Slot) : Prop := q ∈ w.tree.alive ∨ q = w.kernel.idleTask

/-- **The lists of children as they should be**: rings of live processes,
with each process but the initial one in the list of its guardian, the parent
or else the idle task, and in no other list. -/
structure FamilyLists (w : World) : Prop where
  circular : ∀ q, w.Heads q → ∃ cs, w.kernel.family.IsRing (.childs q) (anchors cs)
    ∧ ∀ s ∈ cs, s ∈ w.tree.alive
  linked : ∀ s ∈ w.tree.alive, (w.kernel.task s).pid ≠ 1 →
    ∃ g, w.tree.guardian s = some g ∧ w.Heads g
      ∧ ∀ q, w.Heads q → (.aParentList s ∈ w.kernel.children q ↔ q = g)

/-- The exit of a process finds no other process alive that has already been
orphaned. -/
def NoOtherOrphan (w : World) (e : Event) : Prop :=
  e = .exit → ∀ s ∈ w.tree.alive, w.tree.guardian s = some w.kernel.idleTask →
    s = w.kernel.current

/-- The lists follow the tree if that of the idle task does too. -/
theorem Sound.familyLists (h : w.Sound) (hall : w.AllFamilies) : w.FamilyLists where
  circular q hq := by
    obtain ⟨cs, hring, hcs⟩ := hall.ring q hq
    exact ⟨cs, hring, fun s hs => ((hcs s).mp hs).1⟩
  linked s hs hpid := by
    cases hg : w.tree.guardian s with
    | none => exact absurd ((h.pid s hs).2.mpr hg) hpid
    | some g =>
      refine ⟨g, rfl, (h.guarded s hs g hg).2, fun q hq => ?_⟩
      obtain ⟨cs, hring, hcs⟩ := hall.ring q hq
      rw [Kernel.children_eq hring, List.mem_map_of_injective (fun _ _ => Kin.aParentList.inj),
        hcs]
      constructor
      · exact fun hc => Option.some_inj.mp (hc.2.symm.trans hg)
      · rintro rfl
        exact ⟨hs, hg⟩

/-- **An exit loses the orphans there were**: they are in no list after it. -/
theorem Sound.lost (h : w.Sound) (hst : w.step .exit = some w') (hf : w'.FamilyLists) :
    w.NoOtherOrphan .exit := by
  obtain ⟨h', -, hsame⟩ := h.step hst
  obtain ⟨hidle, htree, -, cs, hring, hcs⟩ := h.exited hst
  intro _ s hs hg
  by_contra hne
  have hs' : s ∈ w'.tree.alive := by
    rw [htree, Tree.mem_exit]
    exact ⟨hne, hs⟩
  have hg' : w'.tree.guardian s = some w.kernel.idleTask := by
    rw [htree, Tree.guardian_exit, hg]
    exact ite_self _
  have hpid : (w'.kernel.task s).pid ≠ 1 := by
    rw [ne_eq, (h'.pid s hs').2, hg']
    exact Option.some_ne_none _
  obtain ⟨g, hgg, -, hlist⟩ := hf.linked s hs' hpid
  obtain rfl : g = w.kernel.idleTask := Option.some_inj.mp (hgg.symm.trans hg')
  have hmem := (hlist w.kernel.idleTask (Or.inr hsame.symm)).mpr rfl
  rw [Kernel.children_eq hring, List.mem_map_of_injective (fun _ _ => Kin.aParentList.inj),
    hcs] at hmem
  exact hidle (Option.some_inj.mp (hmem.2.symm.trans hg))

/-- **An exit that finds no orphan** hands all the children on. -/
theorem Sound.handed (h : w.Sound) (hst : w.step .exit = some w')
    (hno : w.NoOtherOrphan .exit) : w'.AllFamilies := by
  obtain ⟨h', -, hsame⟩ := h.step hst
  obtain ⟨-, htree, -, cs, hring, hcs⟩ := h.exited hst
  refine ⟨fun q hq => ?_, h'.families.loose, h'.families.single⟩
  rcases hq with hq | rfl
  · exact h'.families.ring q hq
  · rw [hsame]
    refine ⟨cs, hring, fun s => (hcs s).trans ?_⟩
    rw [htree, Tree.Child, Tree.Child, Tree.mem_exit, Tree.guardian_exit]
    constructor
    · rintro ⟨hs, hg⟩
      exact ⟨⟨fun he => (h.guarded s hs _ hg).1 he.symm, hs⟩, if_pos hg⟩
    · rintro ⟨⟨hne, hs⟩, hg⟩
      split_ifs at hg with hp
      · exact ⟨hs, hp⟩
      · exact absurd (hno rfl s hs hg) hne

/-- **One event** keeps the lists if it is no exit that finds an orphan. -/
theorem Sound.step_familyLists (h : w.Sound) (hall : w.AllFamilies) {e : Event}
    (hst : w.step e = some w') :
    (w'.FamilyLists ↔ w.NoOtherOrphan e) ∧ (w'.FamilyLists → w'.AllFamilies) := by
  obtain ⟨h', heff, -⟩ := h.step hst
  cases heff with
  | quiet hexit _ _ _ hfamilies =>
    have hall' := hfamilies hall
    exact ⟨iff_of_true (h'.familyLists hall') (fun he => absurd he hexit), fun _ => hall'⟩
  | fork _ _ _ _ _ _ _ hfamilies =>
    have hall' := hfamilies hall
    exact ⟨iff_of_true (h'.familyLists hall') nofun, fun _ => hall'⟩
  | exit =>
    exact ⟨⟨h.lost hst, fun hno => h'.familyLists (h.handed hst hno)⟩,
      fun hf => h.handed hst (h.lost hst hf)⟩

/-- **The lists of children, in a run.** They are as they should be in all the
states of a run from boot exactly if no process exits while another one is an
orphan. -/
theorem familyLists_iff_noOtherOrphan {ram : Location → Byte} {es : List Event}
    (hrun : Run World.step (fun _ _ => True) (boot ram) es w) :
    (∀ bs cs u, es = bs ++ cs → Run World.step (fun _ _ => True) (boot ram) bs u → u.FamilyLists)
      ↔ Run World.step (fun u e => True ∧ u.NoOtherOrphan e) (boot ram) es w := by
  obtain ⟨hsound, hall⟩ := sound_boot ram
  refine Run.always_iff_of_side (I := fun u => u.Sound ∧ u.AllFamilies) ?_ ?_ hrun
    ⟨hsound, hall⟩ (hsound.familyLists hall)
  · intro u e v hu _ hv _ hst
    exact ⟨(hu.1.step hst).1, (hu.1.step_familyLists hu.2 hst).2 hv⟩
  · intro u e v hu _ _ hst
    exact (hu.1.step_familyLists hu.2 hst).1

/-- The initial process forks twice. -/
theorem exists_siblings (ram : Location → Byte) :
    ∃ w l c, Run World.step (fun _ _ => True) (boot ram) [.fork, .fork] w ∧ w.Sound
      ∧ w.kernel.Queued w.tree l ∧ c ≠ 7 ∧ c ≠ 8
      ∧ w.tree = ((⟨{8}, fun _ => none⟩ : Tree).fork 8 7).fork 8 c ∧ w.kernel.current = 8
      ∧ w.kernel.idleTask = 9 ∧ w.kernel.stuck = false ∧ w.kernel.mm.stuck = false
      ∧ l .ready ≠ [] ∧ 9 ∉ l .ready := by
  obtain ⟨htree₀, hcur₀, -, -, -, hstart₀, -⟩ := boot_frame ram
  obtain ⟨w₁, hst₁, -, htree₁, hmm₁, hidle₁, hstuck₁, hmstuck₁, hsp₁⟩ := exists_fork_boot ram
  have h₁ := ((sound_boot ram).1.step hst₁).1
  have hcur₁ : w₁.kernel.current = 8 := hsp₁.current.trans hcur₀
  obtain ⟨l₁, hq₁, -, hrest₁⟩ := hsp₁.queued
  have hscan : (freeFrames (boot ram).kernel.mm.physMem).length = 356 := length_freeFrames_boot ram
  have hlen₁ : numPagData ≤ (freeFrames w₁.kernel.mm.physMem).length := by
    have halive : (8 : Slot) ∈ (boot ram).tree.alive := by
      rw [htree₀]
      exact Finset.mem_singleton_self 8
    rw [hmm₁, (tabled_boot ram).freeFrames_fork halive (by decide) (by rw [hscan]; decide),
      List.length_drop, hscan]
    decide
  have hpid₁ : w₁.kernel.startingPid ≠ intMax := by
    rw [hsp₁.startingPid, hstart₀]
    decide
  obtain ⟨c, hnext₁⟩ := Kernel.exists_nextFree hq₁.rings
    ((hrest₁ 6 (by decide) .free).mpr (by decide))
  obtain ⟨w₂, hst₂, -, htree₂, -, hidle₂, hstuck₂, hmstuck₂, hsp₂⟩ :=
    h₁.exists_fork hq₁ (by rw [hcur₁, hidle₁]; decide) hstuck₁ hmstuck₁ hnext₁ hlen₁ hpid₁
  obtain ⟨l₂, hq₂, hready₂, hrest₂⟩ := hsp₂.queued
  obtain ⟨hc, hci, -⟩ := h₁.free_dead hnext₁
  rw [htree₀] at htree₁
  rw [htree₁, Tree.mem_fork, Finset.mem_singleton, not_or] at hc
  rw [hidle₁] at hci hidle₂
  rw [hcur₁, htree₁] at htree₂
  have hrun : Run World.step (fun _ _ => True) (boot ram) ([.fork] ++ [.fork]) w₂ :=
    (Run.single trivial hst₁).snoc trivial hst₂
  refine ⟨w₂, l₂, c, hrun, (h₁.step hst₂).1, hq₂, hc.1, hc.2, htree₂, hsp₂.current.trans hcur₁,
    hidle₂, hstuck₂, hmstuck₂, List.ne_nil_of_mem hready₂, ?_⟩
  rw [hrest₂ 9 hci.symm .ready, hrest₁ 9 (by decide) .ready]
  exact List.not_mem_nil

/-- **The initial process forks twice and exits, and so does one of its
children**: the other one is alive and in no list. -/
theorem exists_orphan_lost :
    ∃ w, Run World.step (fun _ _ => True) (boot (fun _ => 0)) [.fork, .fork, .exit, .exit] w
      ∧ ¬ w.FamilyLists := by
  obtain ⟨w, l, c, hrun, h, hq, hc7, hc8, htree, hcur, hidle, hstuck, hmstuck, hne, hnot⟩ :=
    exists_siblings (fun _ => 0)
  obtain ⟨w₁, hst₁, htree₁, hidle₁, hstuck₁, hmstuck₁, hready₁⟩ :=
    h.exists_exit hq (by rw [hcur, hidle]; decide) hstuck hmstuck
  rw [hcur, hidle, htree] at htree₁
  rw [hidle] at hidle₁
  have h₁ := (h.step hst₁).1
  obtain ⟨l₁, hq₁⟩ := h₁.queued
  have hi₁ : w₁.kernel.current ≠ w₁.kernel.idleTask := by
    rw [hidle₁]
    exact fun he => hnot (he ▸ hready₁ hne)
  obtain ⟨w₂, hst₂, -⟩ := h₁.exists_exit hq₁ hi₁ hstuck₁ hmstuck₁
  refine ⟨w₂, (hrun.snoc trivial hst₁).snoc trivial hst₂, fun hf => ?_⟩
  -- both children are orphans, and only one of them exits
  have hno := h₁.lost hst₂ hf rfl
  rw [htree₁, hidle₁] at hno
  have hchild : ∀ s, s = c ∨ s = 7 → s = w₁.kernel.current := by
    intro s hs
    refine hno s ?_ ?_
    · rw [Tree.mem_exit, Tree.mem_fork, Tree.mem_fork]
      rcases hs with rfl | rfl
      · exact ⟨hc8, Or.inl rfl⟩
      · exact ⟨by decide, Or.inr (Or.inl rfl)⟩
    · rw [Tree.guardian_exit, Tree.guardian_fork, Tree.guardian_fork]
      rcases hs with rfl | rfl
      · rw [if_pos rfl, if_pos rfl]
      · rw [if_neg hc7.symm, if_pos rfl, if_pos rfl]
  exact hc7 ((hchild c (Or.inl rfl)).trans (hchild 7 (Or.inr rfl)).symm)

/-- **The initial process forks and exits, and then its child does**: the
child is the only orphan, and the lists are as they should be all along. -/
theorem familyLists_iff_noOtherOrphan_exit :
    ∃ w, Run World.step (fun _ _ => True) (boot (fun _ => 0)) [.fork, .exit, .exit] w
      ∧ ∀ bs cs u, [Event.fork, .exit, .exit] = bs ++ cs →
        Run World.step (fun _ _ => True) (boot (fun _ => 0)) bs u → u.FamilyLists := by
  obtain ⟨w₁, l, hst₁, hq₁, hready, -, -, hcur₁, -, -, htree₁, hidle₁, hstuck₁, hmstuck₁, -⟩ :=
    exists_fork_yields (fun _ => 0)
  have h₁ := ((sound_boot (fun _ => 0)).1.step hst₁).1
  obtain ⟨w₂, hst₂, htree₂, hidle₂, hstuck₂, hmstuck₂, hnext⟩ :=
    h₁.exists_exit hq₁ (by rw [hcur₁, hidle₁]; decide) hstuck₁ hmstuck₁
  have h₂ := (h₁.step hst₂).1
  have hcur₂ : w₂.kernel.current = 7 := by
    rw [hready] at hnext
    exact List.mem_singleton.mp (hnext (List.cons_ne_nil _ _))
  obtain ⟨l₂, hq₂⟩ := h₂.queued
  obtain ⟨w₃, hst₃, -⟩ :=
    h₂.exists_exit hq₂ (by rw [hcur₂, hidle₂, hidle₁]; decide) hstuck₂ hmstuck₂
  rw [hcur₁, hidle₁, htree₁] at htree₂
  -- nobody is an orphan before the first exit, and only the child before the second
  have hfirst : w₁.NoOtherOrphan .exit := by
    intro _ s hs hg
    rw [hidle₁, htree₁, Tree.guardian_fork] at hg
    split_ifs at hg
    exact absurd (Option.some_inj.mp hg) (by decide)
  have hsecond : w₂.NoOtherOrphan .exit := by
    intro _ s hs _
    rw [htree₂, Tree.mem_exit, Tree.mem_fork, Finset.mem_singleton] at hs
    rw [hcur₂]
    exact hs.2.resolve_right hs.1
  have hrun : Run World.step (fun u e => True ∧ u.NoOtherOrphan e) (boot (fun _ => 0))
      ([.fork] ++ [.exit] ++ [.exit]) w₃ :=
    ((Run.single ⟨trivial, nofun⟩ hst₁).snoc ⟨trivial, hfirst⟩ hst₂).snoc ⟨trivial, hsecond⟩ hst₃
  have hall := hrun.weaken fun _ _ _ _ _ _ hP => hP.1
  exact ⟨w₃, hall, (familyLists_iff_noOtherOrphan hall).mpr hrun⟩

end World

end ZeOS.Zeos
