import ZeOS.Zeos.Fork
import ZeOS.Zeos.Tables

/-!
# What one event does

`World.Sound` collects what holds between two events whatever has happened:
the queues, the lists of children, the identifiers. `Effect` says what an
event does to the tree and to the memory; it is what the results on frames
and on families are derived from.
-/

namespace ZeOS.Zeos

open Practica (freeFrames markUsed)

namespace Kernel

variable {k : Kernel} {t : Tree} {l : Queue → List Slot} {c : Slot}

/-! ## `sys_fork`, by what it finds -/

theorem sysFork_none (h : Rings k.links l) (hnext : k.nextFree = none) :
    k.sysFork = (-eNOMEM, k) := by
  have hnil : l .free = [] := by
    rw [nextFree_eq h] at hnext
    exact List.head?_eq_none_iff.mp hnext
  have hempty : listEmpty k.links .freequeue = true := by
    refine (listEmpty_iff (h.ring .free)).mpr ?_
    rw [hnil]
    rfl
  rw [sysFork, if_pos hempty]

theorem mem_free_of_nextFree (h : Rings k.links l) (hnext : k.nextFree = some c) :
    c ∈ l .free := by
  rw [nextFree_eq h] at hnext
  exact List.mem_of_head? hnext

theorem linkKin_task (k : Kernel) (new head : Kin) : (k.linkKin new head).task = k.task := by
  rw [linkKin]
  cases listAddTail k.family new head <;> rfl

theorem linkTail_frame (k : Kernel) (new head : Node) :
    (k.linkTail new head).task = k.task ∧ (k.linkTail new head).current = k.current
      ∧ (k.linkTail new head).ticksSinceCpu = k.ticksSinceCpu
      ∧ (k.linkTail new head).startingPid = k.startingPid := by
  rw [linkTail]
  cases listAddTail k.links new head <;> exact ⟨rfl, rfl, rfl, rfl⟩

/-- The structs with that of a child. -/
theorem startChild_frame (k : Kernel) (c : Slot) :
    (k.startChild c).task = Function.update k.task c { k.task c with
        pid := k.startingPid + 1, state := .ready, pParent := some k.current, pendingUnblocks := 0 }
      ∧ (k.startChild c).current = k.current
      ∧ (k.startChild c).ticksSinceCpu = k.ticksSinceCpu
      ∧ (k.startChild c).startingPid = k.startingPid + 1 := by
  rw [startChild]
  dsimp only
  obtain ⟨htask, hcur, hticks, hpid⟩ := linkTail_frame
    (({ (({ k with
        startingPid := k.startingPid + 1
        stuck := k.stuck || decide (k.startingPid = intMax) } : Kernel).modifyTask c (fun u =>
        { u with
          pid := k.startingPid + 1, state := .ready, pParent := some k.current,
          pendingUnblocks := 0 })) with
      family := initListHead k.family (.childs c) } : Kernel).linkKin (.aParentList c)
        (.childs k.current)) (.task c) .readyqueue
  refine ⟨htask.trans ?_, hcur.trans ?_, hticks.trans ?_, hpid.trans ?_⟩
  · rw [linkKin_task]
    rfl
  all_goals
    rw [linkKin]
    split <;> rfl

/-- With a free slot, the allocation decides. -/
theorem sysFork_some (h : k.Queued t l) (hnext : k.nextFree = some c)
    (hfirst : k.mm.physMem numPagKernel ≠ 0) :
    k.sysFork
      = if numPagData ≤ (freeFrames k.mm.physMem).length then
          (k.startingPid + 1,
            (({ k.reserve c with mm := forkedMm k.mm k.current c } : Kernel).setCr3
              k.current).startChild c)
        else (-eAGAIN, (k.reserve c).linkTail (.task c) .freequeue) := by
  have hc := mem_free_of_nextFree h.rings hnext
  have hcc : k.current ≠ c := fun he => (h.settled c).free hc (he ▸ h.current_tended)
  have hne : ¬ listEmpty k.links .freequeue = true := by
    intro he
    have hnil := (listEmpty_iff (h.rings.ring .free)).mp he
    exact List.ne_nil_of_mem hc (List.map_eq_nil_iff.mp hnil)
  obtain ⟨h₁, l₁, heq, -, -, -⟩ := reserve_spec h hc
  have hmm : (k.reserve c).mm = k.mm := by rw [heq]
  have hcur : (k.reserve c).current = k.current := by rw [heq]
  have hcr3 : (k.reserve c).cr3 = k.current := by
    rw [heq]
    exact h.cr3
  have hpt : (k.reserve c).getPt k.current = k.current := by
    rw [heq]
    show (Function.update k.task c _ k.current).dirPagesBaseAddr = _
    rw [Function.update_of_ne hcc]
    exact (h.settled k.current).dir h.current_tended
  have hptc : (k.reserve c).getPt c = c := by
    rw [heq]
    show (Function.update k.task c _ c).dirPagesBaseAddr = _
    rw [Function.update_self]
  have hpid : (k.reserve c).startingPid = k.startingPid := by rw [heq]
  have hnext' : (listFirst k.links .freequeue).bind listHeadToTaskStruct = some c := hnext
  rw [sysFork, if_neg hne, hnext']
  dsimp only
  rw [show ((k.unlink (.task c)).copyUnion c).allocateDir c = k.reserve c from rfl, hmm,
    allocFrames_eq _ hfirst]
  split_ifs with hlen
  · dsimp only
    rw [hcur, hcr3]
    rw [hpt, hptc]
    refine Prod.ext ?_ rfl
    rw [(startChild_frame _ c).1, Function.update_self]
    exact congrArg (· + 1) hpid
  · dsimp only
    rw [← hmm]

end Kernel

namespace World

variable {w w' : World}

/-! ## The invariant -/

/-- The lists of children of the live processes. -/
def Families (w : World) : Prop :=
  KinLists w.kernel.family (· ∈ w.tree.alive) w.tree.Child w.kernel.idleTask

/-- The lists of children, that of the idle task among them. -/
def AllFamilies (w : World) : Prop :=
  KinLists w.kernel.family (fun q => q ∈ w.tree.alive ∨ q = w.kernel.idleTask) w.tree.Child
    w.kernel.idleTask

/-- **What holds between two events.** -/
structure Sound (w : World) : Prop where
  queued : ∃ l, w.kernel.Queued w.tree l
  families : w.Families
  guarded : ∀ s ∈ w.tree.alive, ∀ q, w.tree.guardian s = some q →
    q ≠ s ∧ (q ∈ w.tree.alive ∨ q = w.kernel.idleTask)
  /-- The initial process is the one nobody looks after. -/
  pid : ∀ s ∈ w.tree.alive, (w.kernel.task s).pid ≠ 0
    ∧ ((w.kernel.task s).pid = 1 ↔ w.tree.guardian s = none)
  startingPid : 1000 ≤ w.kernel.startingPid
  tabled : Tabled w.kernel.mm w.tree

theorem Sound.alive_ne (h : w.Sound) {s : Slot} (hs : s ∈ w.tree.alive) :
    s ≠ w.kernel.idleTask := by
  obtain ⟨l, hq⟩ := h.queued
  exact (hq.settled s).alive hs

theorem Sound.current_alive (h : w.Sound) (hi : w.kernel.current ≠ w.kernel.idleTask) :
    w.kernel.current ∈ w.tree.alive := by
  obtain ⟨l, hq⟩ := h.queued
  exact hq.current_tended.resolve_right hi

/-- **What an event does** to the tree, to the memory and to the list of the
idle task. -/
inductive Effect (w w' : World) : Event → Prop
  /-- No process is born or dies. -/
  | quiet {e : Event} (hexit : e ≠ .exit) (htree : w'.tree = w.tree)
      (hpt : w'.kernel.mm.pagusrTable = w.kernel.mm.pagusrTable)
      (hphys : w'.kernel.mm.physMem = w.kernel.mm.physMem)
      (hfamilies : w.AllFamilies → w'.AllFamilies) : Effect w w' e
  | fork {c : Slot} (hnext : w.kernel.nextFree = some c) (hdead : c ∉ w.tree.alive)
      (hidle : c ≠ w.kernel.idleTask)
      (hlen : numPagData ≤ (freeFrames w.kernel.mm.physMem).length)
      (hpid : 0 < w.kernel.sysFork.1)
      (htree : w'.tree = w.tree.fork w.kernel.current c)
      (hmm : w'.kernel.mm = forkedMm w.kernel.mm w.kernel.current c)
      (hfamilies : w.AllFamilies → w'.AllFamilies) : Effect w w' .fork
  | exit (hidle : w.kernel.current ≠ w.kernel.idleTask)
      (htree : w'.tree = w.tree.exit w.kernel.current w.kernel.idleTask)
      (hmm : w'.kernel.mm = Mm.exitPages w.kernel.mm w.kernel.current)
      (hring : ∃ cs, w'.kernel.family.IsRing (.childs w.kernel.idleTask) (anchors cs)
        ∧ ∀ s, s ∈ cs ↔ w.tree.Child w.kernel.current s) : Effect w w' .exit

/-! ## One event after the other -/

/-- An event that the tree does not see. -/
theorem Sound.quiet (h : w.Sound) {k' : Kernel} {l : Queue → List Slot}
    (hq : k'.Queued w.tree l) (hquiet : Kernel.Quiet w.kernel k') {e : Event} (hexit : e ≠ .exit) :
    Sound ⟨k', w.tree⟩ ∧ Effect w ⟨k', w.tree⟩ e ∧ k'.idleTask = w.kernel.idleTask := by
  have hfam : ∀ heads : Slot → Prop,
      KinLists w.kernel.family heads w.tree.Child w.kernel.idleTask →
        KinLists k'.family heads w.tree.Child k'.idleTask := by
    intro heads hk
    rw [hquiet.family, hquiet.idleTask]
    exact hk
  refine ⟨⟨⟨l, hq⟩, hfam _ h.families, fun s hs q hg => ?_, fun s hs => ?_, ?_, ?_⟩,
    Effect.quiet hexit rfl hquiet.pagusrTable hquiet.physMem (fun hall => ?_), hquiet.idleTask⟩
  · show q ≠ s ∧ (q ∈ w.tree.alive ∨ q = k'.idleTask)
    rw [hquiet.idleTask]
    exact h.guarded s hs q hg
  · show (k'.task s).pid ≠ 0 ∧ ((k'.task s).pid = 1 ↔ _)
    rw [hquiet.pid]
    exact h.pid s hs
  · show 1000 ≤ k'.startingPid
    rw [hquiet.startingPid]
    exact h.startingPid
  · exact h.tabled.congr hquiet.pagusrTable hquiet.physMem
  · have hall' := hfam _ hall
    unfold AllFamilies
    rw [hquiet.idleTask] at hall' ⊢
    exact hall'

/-- The slot a fork takes is that of no process. -/
theorem Sound.free_dead (h : w.Sound) {c : Slot} (hnext : w.kernel.nextFree = some c) :
    c ∉ w.tree.alive ∧ c ≠ w.kernel.idleTask ∧ (∀ q, ¬ w.tree.Child q c)
      ∧ ∀ s, ¬ w.tree.Child c s := by
  obtain ⟨l, hq⟩ := h.queued
  have hdead := (hq.settled c).free (Kernel.mem_free_of_nextFree hq.rings hnext)
  have hca : c ∉ w.tree.alive := fun ha => hdead (Or.inl ha)
  have hci : c ≠ w.kernel.idleTask := fun he => hdead (Or.inr he)
  refine ⟨hca, hci, fun q hc => hca hc.1, fun s hs => ?_⟩
  rcases (h.guarded s hs.1 c hs.2).2 with ha | hi
  · exact hca ha
  · exact hci hi

/-- The children once a process has forked. -/
theorem child_fork {t : Tree} {p c q s : Slot} (hc : c ∉ t.alive) :
    (t.fork p c).Child q s ↔ t.Child q s ∨ q = p ∧ s = c := by
  rw [Tree.Child, Tree.Child, Tree.mem_fork, Tree.guardian_fork]
  by_cases hs : s = c
  · subst hs
    simp [hc, eq_comm]
  · simp [hs]

/-- **What a fork does to the queues**: the parent goes on, the child is
ready, and everyone else stays in the queue they were in. -/
structure Spawned (w w' : World) (l : Queue → List Slot) (c : Slot) : Prop where
  queued : ∃ l', w'.kernel.Queued w'.tree l' ∧ c ∈ l' .ready ∧ ∀ u, u ≠ c → ∀ q, u ∈ l' q ↔ u ∈ l q
  current : w'.kernel.current = w.kernel.current
  startingPid : w'.kernel.startingPid = w.kernel.startingPid + 1
  stuck : w'.kernel.stuck = (w.kernel.stuck || decide (w.kernel.startingPid = intMax))

/-- A fork completed, whatever the memory it makes. -/
theorem Sound.spawned (h : w.Sound) {l : Queue → List Slot} (hq : w.kernel.Queued w.tree l)
    (hi : w.kernel.current ≠ w.kernel.idleTask) {c : Slot} (hnext : w.kernel.nextFree = some c)
    {m : Mm} (hm : Tabled m (w.tree.fork w.kernel.current c)) {k' : Kernel}
    (hk : (({ w.kernel.reserve c with mm := m } : Kernel).setCr3 w.kernel.current).startChild c
      = k') :
    Sound ⟨k', w.tree.fork w.kernel.current c⟩ ∧ k'.mm = m
      ∧ k'.idleTask = w.kernel.idleTask
      ∧ (w.AllFamilies → AllFamilies ⟨k', w.tree.fork w.kernel.current c⟩)
      ∧ Spawned w ⟨k', w.tree.fork w.kernel.current c⟩ l c := by
  obtain ⟨hca, hci, hcp, hcc⟩ := h.free_dead hnext
  have hcur := h.current_alive hi
  have hstart := h.startingPid
  have hcopy : ∀ y : Kin, y ≠ .childs c → y ≠ .aParentList c →
      Kernel.copyKin w.kernel.family w.kernel.current c y = w.kernel.family y :=
    fun y => Kernel.copyKin_of_ne w.kernel.family w.kernel.current
  obtain ⟨h₃, hadd, hkin⟩ := h.families.spawn hcur hi hca hci hcp hcc hcopy
  obtain ⟨h', l', heq, hq', hready, hrest⟩ :=
    Kernel.startChild_spec hq (Kernel.mem_free_of_nextFree hq.rings hnext) m hadd
  rw [hk] at heq hq'
  have hpid : ∀ s, (k'.task s).pid
      = if s = c then w.kernel.startingPid + 1 else (w.kernel.task s).pid := by
    intro s
    rw [heq]
    show (Function.update w.kernel.task c (w.kernel.childStruct c) s).pid = _
    rw [Function.update_apply]
    split_ifs <;> rfl
  have hfam : k'.family = h₃ := by rw [heq]
  have hidle : k'.idleTask = w.kernel.idleTask := by rw [heq]
  have hcurrent : k'.current = w.kernel.current := by rw [heq]
  have hnext' : k'.startingPid = w.kernel.startingPid + 1 := by rw [heq]
  have hstuck : k'.stuck = (w.kernel.stuck || decide (w.kernel.startingPid = intMax)) := by
    rw [heq]
  refine ⟨⟨⟨l', hq'⟩, ?_, fun s hs q hg => ?_, fun s hs => ?_, ?_, ?_⟩, by rw [heq], hidle,
    fun hall => ?_, ⟨⟨l', hq', hready, hrest⟩, hcurrent, hnext', hstuck⟩⟩
  · show KinLists k'.family _ _ k'.idleTask
    rw [hfam, hidle]
    exact hkin.congr (fun q hq => (Tree.mem_fork.mp hq).symm) (fun q s => child_fork hca)
  · show q ≠ s ∧ (q ∈ (w.tree.fork w.kernel.current c).alive ∨ q = k'.idleTask)
    rw [hidle]
    rw [Tree.guardian_fork] at hg
    split_ifs at hg with hsc
    · have hqc : w.kernel.current = q := Option.some_inj.mp hg
      have hqa : q ∈ w.tree.alive := hqc ▸ hcur
      refine ⟨fun he => hca ?_, Or.inl (Tree.mem_fork.mpr (Or.inr hqa))⟩
      rw [← hsc, ← he, ← hqc]
      exact hcur
    · obtain ⟨hne, hq⟩ := h.guarded s ((Tree.mem_fork.mp hs).resolve_left hsc) q hg
      exact ⟨hne, hq.imp (fun ha => Tree.mem_fork.mpr (Or.inr ha)) id⟩
  · show (k'.task s).pid ≠ 0 ∧ ((k'.task s).pid = 1 ↔ _)
    rw [Tree.guardian_fork, hpid]
    split_ifs with hsc
    · exact ⟨by omega, iff_of_false (by omega) nofun⟩
    · exact h.pid s ((Tree.mem_fork.mp hs).resolve_left hsc)
  · show 1000 ≤ k'.startingPid
    rw [hnext']
    exact le_trans hstart (Int.le_add_one le_rfl)
  · show Tabled k'.mm (w.tree.fork w.kernel.current c)
    rw [heq]
    exact hm
  · -- the idle task's list is extended by the same stores
    have hcall : ¬ (c ∈ w.tree.alive ∨ c = w.kernel.idleTask) := not_or.mpr ⟨hca, hci⟩
    obtain ⟨h₄, hadd', hkin'⟩ := KinLists.spawn hall (Or.inl hcur) hi hcall hci hcp hcc hcopy
    obtain rfl : h₃ = h₄ := Option.some_inj.mp (hadd.symm.trans hadd')
    show KinLists k'.family _ _ k'.idleTask
    rw [hfam, hidle]
    refine hkin'.congr (fun q hq => ?_) (fun q s => child_fork hca)
    rw [Tree.mem_fork] at hq
    tauto

/-- A fork given up. -/
theorem Sound.givenUp (h : w.Sound) {c : Slot} (hnext : w.kernel.nextFree = some c) {k' : Kernel}
    (hk : (w.kernel.reserve c).linkTail (.task c) .freequeue = k') :
    Sound ⟨k', w.tree⟩ ∧ k'.mm = w.kernel.mm ∧ k'.idleTask = w.kernel.idleTask
      ∧ (w.AllFamilies → AllFamilies ⟨k', w.tree⟩) := by
  obtain ⟨l, hq⟩ := h.queued
  obtain ⟨hca, hci, hcp, hcc⟩ := h.free_dead hnext
  have hfree := Kernel.mem_free_of_nextFree hq.rings hnext
  obtain ⟨h₁, l₁, hres, -, -, -⟩ := Kernel.reserve_spec hq hfree
  obtain ⟨h', l', heq, hq'⟩ := Kernel.giveUp_spec hq hfree w.kernel.mm
  have hsame : ({ w.kernel.reserve c with mm := w.kernel.mm } : Kernel) = w.kernel.reserve c := by
    rw [hres]
  rw [hsame, hk] at heq hq'
  have hcopy : ∀ y : Kin, y ≠ .childs c → y ≠ .aParentList c →
      Kernel.copyKin w.kernel.family w.kernel.current c y = w.kernel.family y :=
    fun y => Kernel.copyKin_of_ne w.kernel.family w.kernel.current
  have hfam : k'.family = Kernel.copyKin w.kernel.family w.kernel.current c := by rw [heq]
  have hidle : k'.idleTask = w.kernel.idleTask := by rw [heq]
  have hpid : ∀ s ∈ w.tree.alive, (k'.task s).pid = (w.kernel.task s).pid := by
    intro s hs
    have hsc : s ≠ c := fun he => hca (he ▸ hs)
    rw [heq]
    show (Function.update w.kernel.task c _ s).pid = _
    rw [Function.update_of_ne hsc]
  refine ⟨⟨⟨l', hq'⟩, ?_, fun s hs q hg => ?_, fun s hs => ?_, ?_, ?_⟩, by rw [heq], hidle,
    fun hall => ?_⟩
  · show KinLists k'.family _ _ k'.idleTask
    rw [hfam, hidle]
    exact h.families.relink hca hci hcp hcopy
  · show q ≠ s ∧ (q ∈ w.tree.alive ∨ q = k'.idleTask)
    rw [hidle]
    exact h.guarded s hs q hg
  · show (k'.task s).pid ≠ 0 ∧ ((k'.task s).pid = 1 ↔ _)
    rw [hpid s hs]
    exact h.pid s hs
  · show 1000 ≤ k'.startingPid
    rw [heq]
    exact h.startingPid
  · show Tabled k'.mm w.tree
    rw [heq]
    exact h.tabled
  · show KinLists k'.family _ _ k'.idleTask
    rw [hfam, hidle]
    exact KinLists.relink hall (not_or.mpr ⟨hca, hci⟩) hci hcp hcopy

/-- **`sys_fork`.** -/
theorem Sound.fork (h : w.Sound) (hi : w.kernel.current ≠ w.kernel.idleTask) :
    Sound ⟨w.kernel.sysFork.2, w.grow .fork⟩
      ∧ Effect w ⟨w.kernel.sysFork.2, w.grow .fork⟩ .fork
      ∧ w.kernel.sysFork.2.idleTask = w.kernel.idleTask := by
  obtain ⟨l, hq⟩ := h.queued
  cases hnext : w.kernel.nextFree with
  | none =>
    have hgrow : w.grow .fork = w.tree := by simp only [grow, hnext]
    rw [hgrow, Kernel.sysFork_none hq.rings hnext]
    exact h.quiet hq (Kernel.Rescheduled.refl w.kernel).quiet nofun
  | some c =>
    have hfork := Kernel.sysFork_some hq hnext (h.tabled.kernel _ le_rfl)
    obtain ⟨hca, hci, -, -⟩ := h.free_dead hnext
    by_cases hlen : numPagData ≤ (freeFrames w.kernel.mm.physMem).length
    · rw [if_pos hlen] at hfork
      have hpos : 0 < w.kernel.sysFork.1 := by
        rw [hfork]
        exact Int.lt_add_one_of_le (le_trans (by decide) h.startingPid)
      have hgrow : w.grow .fork = w.tree.fork w.kernel.current c := by
        simp only [grow, hnext, if_pos hpos]
      have hcur := h.current_alive hi
      have hcc : w.kernel.current ≠ c := fun he => hca (he ▸ hcur)
      have htabled := h.tabled.fork hcur hcc hlen
      obtain ⟨hs, hmm, hidle, hall, -⟩ :=
        h.spawned hq hi hnext htabled (congrArg Prod.snd hfork).symm
      rw [hgrow]
      exact ⟨hs, Effect.fork hnext hca hci hlen hpos rfl hmm hall, hidle⟩
    · rw [if_neg hlen] at hfork
      have hneg : ¬ 0 < w.kernel.sysFork.1 := by
        rw [hfork]
        exact Int.not_lt.mpr (by decide : -eAGAIN ≤ 0)
      have hgrow : w.grow .fork = w.tree := by simp only [grow, hnext, if_neg hneg]
      obtain ⟨hs, hmm, hidle, hall⟩ := h.givenUp hnext (congrArg Prod.snd hfork).symm
      rw [hgrow]
      exact ⟨hs, Effect.quiet nofun rfl (congrArg _ hmm) (congrArg _ hmm) hall, hidle⟩

/-- The children once a process has exited. -/
theorem child_exit {t : Tree} {p idle q s : Slot} :
    (t.exit p idle).Child q s
      ↔ KinLists.Adopted (fun q s => t.Child q s ∧ s ≠ p) p idle q s := by
  rw [Tree.Child, Tree.mem_exit, Tree.guardian_exit]
  unfold KinLists.Adopted Tree.Child
  by_cases hp : t.guardian s = some p
  · rw [if_pos hp]
    constructor
    · rintro ⟨⟨hs, ha⟩, hq⟩
      exact Or.inl ⟨(Option.some_inj.mp hq).symm, Or.inr ⟨⟨ha, hp⟩, hs⟩⟩
    · rintro (⟨rfl, ⟨⟨ha, -⟩, hs⟩ | ⟨⟨ha, -⟩, hs⟩⟩ | ⟨-, hqp, ⟨-, hg⟩, -⟩)
      · exact ⟨⟨hs, ha⟩, rfl⟩
      · exact ⟨⟨hs, ha⟩, rfl⟩
      · exact absurd (Option.some_inj.mp (hg.symm.trans hp)) hqp
  · rw [if_neg hp]
    constructor
    · rintro ⟨⟨hs, ha⟩, hg⟩
      by_cases hq : q = idle
      · exact Or.inl ⟨hq, Or.inl ⟨⟨ha, hq ▸ hg⟩, hs⟩⟩
      · exact Or.inr ⟨hq, fun he => hp (he ▸ hg), ⟨ha, hg⟩, hs⟩
    · rintro (⟨rfl, ⟨⟨ha, hg⟩, hs⟩ | ⟨⟨-, hg⟩, -⟩⟩ | ⟨-, -, ⟨ha, hg⟩, hs⟩)
      · exact ⟨⟨hs, ha⟩, hg⟩
      · exact absurd hg hp
      · exact ⟨⟨hs, ha⟩, hg⟩

/-- The dying process is taken out of its parent's list, if it has one. -/
theorem Sound.leave (h : w.Sound) (hi : w.kernel.current ≠ w.kernel.idleTask) :
    ∃ h₁, (if (w.kernel.task w.kernel.current).pid ≠ 1 ∧ (w.kernel.task w.kernel.current).pid ≠ 0
        then w.kernel.unlinkKin (.aParentList w.kernel.current) else w.kernel)
        = { w.kernel with family := h₁ }
      ∧ KinLists h₁ (· ∈ w.tree.alive) (fun q s => w.tree.Child q s ∧ s ≠ w.kernel.current)
        w.kernel.idleTask := by
  have hcur := h.current_alive hi
  obtain ⟨hzero, hone⟩ := h.pid _ hcur
  cases hg : w.tree.guardian w.kernel.current with
  | none =>
    rw [if_neg (fun hc => hc.1 (hone.mpr hg))]
    refine ⟨w.kernel.family, rfl, h.families.congr (fun _ hq => hq) (fun q s => ?_)⟩
    refine ⟨And.left, fun hs => ⟨hs, fun he => ?_⟩⟩
    have hsome := hs.2
    rw [he, hg] at hsome
    exact Option.some_ne_none q hsome.symm
  | some g =>
    have hne : (w.kernel.task w.kernel.current).pid ≠ 1 := by
      rw [ne_eq, hone, hg]
      exact Option.some_ne_none g
    obtain ⟨h₁, hdel, hkin⟩ := h.families.leave ⟨hcur, hg⟩ (h.guarded _ hcur g hg).2
    rw [if_pos ⟨hne, hzero⟩, Kernel.unlinkKin, hdel]
    exact ⟨h₁, rfl, hkin⟩

/-- **`sys_exit`, once the children have been handed on**: the pages are given
back and the slot is. -/
theorem Sound.sysExit_eq (h : w.Sound) {l : Queue → List Slot} (hq : w.kernel.Queued w.tree l)
    (hi : w.kernel.current ≠ w.kernel.idleTask) :
    ∃ h' cs, w.kernel.sysExit
        = (({ w.kernel with
            family := h'
            mm := Mm.exitPages w.kernel.mm w.kernel.current } : Kernel).updateProcessStateRr
          w.kernel.current (some .freequeue)).schedNextRr
      ∧ h'.IsRing (.childs w.kernel.idleTask) (anchors cs)
      ∧ (∀ s, s ∈ cs ↔ w.tree.Child w.kernel.current s ∧ s ≠ w.kernel.current)
      ∧ KinLists h'
        (fun q => q ∈ w.tree.alive ∧ q ≠ w.kernel.current ∧ q ≠ w.kernel.idleTask)
        (KinLists.Adopted (fun q s => w.tree.Child q s ∧ s ≠ w.kernel.current) w.kernel.current
          w.kernel.idleTask) w.kernel.idleTask := by
  have hcur := h.current_alive hi
  obtain ⟨h₁, hleave, hkin₁⟩ := h.leave hi
  obtain ⟨h₂, h₃, cs, hadd, hdel, hring, hcs, hkin⟩ := hkin₁.adopt hcur hi
  have hpt : w.kernel.getPt w.kernel.current = w.kernel.current :=
    (hq.settled _).dir hq.current_tended
  refine ⟨h₃, cs, ?_, hring, hcs, hkin⟩
  rw [Kernel.sysExit, hleave]
  simp only [Kernel.linkKin, Kernel.unlinkKin, hadd, hdel]
  rw [show ({ w.kernel with family := h₃ } : Kernel).getPt w.kernel.current = w.kernel.current
    from hpt]

/-- **`sys_exit`.** -/
theorem Sound.exit (h : w.Sound) {l : Queue → List Slot} (hq : w.kernel.Queued w.tree l)
    (hi : w.kernel.current ≠ w.kernel.idleTask) :
    Sound ⟨w.kernel.sysExit, w.grow .exit⟩
      ∧ Effect w ⟨w.kernel.sysExit, w.grow .exit⟩ .exit
      ∧ w.kernel.sysExit.idleTask = w.kernel.idleTask ∧ w.kernel.sysExit.stuck = w.kernel.stuck
      ∧ (l .ready ≠ [] → w.kernel.sysExit.current ∈ l .ready) := by
  obtain ⟨h₃, cs, hexit, hring, hcs, hkin⟩ := h.sysExit_eq hq hi
  -- the state in which the slot is given back
  set k₁ : Kernel := { w.kernel with
    family := h₃
    mm := Mm.exitPages w.kernel.mm w.kernel.current } with hk₁
  have hq₁ : k₁.Queued w.tree l := hq.congr rfl (fun _ => ⟨rfl, rfl⟩) rfl rfl rfl
  obtain ⟨⟨l', hq', hres⟩, hready⟩ := Kernel.retire_spec hq₁ hi
  have hfam : w.kernel.sysExit.family = h₃ := (congrArg _ hexit).trans hres.family
  have hidle : w.kernel.sysExit.idleTask = w.kernel.idleTask :=
    (congrArg _ hexit).trans hres.idleTask
  have hmm : w.kernel.sysExit.mm = Mm.exitPages w.kernel.mm w.kernel.current :=
    (congrArg _ hexit).trans hres.mm
  have hpid : ∀ s, (w.kernel.sysExit.task s).pid = (w.kernel.task s).pid :=
    fun s => (congrArg (fun k : Kernel => (k.task s).pid) hexit).trans (hres.pid s)
  have hgrow : w.grow .exit = w.tree.exit w.kernel.current w.kernel.idleTask := rfl
  have hchild : ∀ s, w.tree.Child w.kernel.current s ∧ s ≠ w.kernel.current
      ↔ w.tree.Child w.kernel.current s := by
    intro s
    refine and_iff_left_of_imp (fun hs he => ?_)
    exact (h.guarded s hs.1 _ hs.2).1 he.symm
  rw [hgrow]
  refine ⟨⟨⟨l', ?_⟩, ?_, fun s hs q hg => ?_, fun s hs => ?_, ?_, ?_⟩,
    Effect.exit hi rfl hmm ⟨cs, ?_, fun s => (hcs s).trans (hchild s)⟩, hidle,
    (congrArg _ hexit).trans hres.stuck, fun hne => by
      rw [hexit]
      exact hready hne⟩
  · rw [hexit]
    exact hq'
  · show KinLists w.kernel.sysExit.family _ _ w.kernel.sysExit.idleTask
    rw [hfam, hidle]
    refine hkin.congr (fun q hq => ?_) (fun q s => child_exit)
    obtain ⟨hne, ha⟩ := Tree.mem_exit.mp hq
    exact ⟨ha, hne, h.alive_ne ha⟩
  · obtain ⟨hne, ha⟩ := Tree.mem_exit.mp hs
    show q ≠ s ∧ (q ∈ (w.tree.exit _ _).alive ∨ q = w.kernel.sysExit.idleTask)
    rw [hidle, Tree.mem_exit]
    rw [Tree.guardian_exit] at hg
    split_ifs at hg with hp
    · obtain rfl := Option.some_inj.mp hg
      exact ⟨(h.alive_ne ha).symm, Or.inr rfl⟩
    · obtain ⟨hqs, hq⟩ := h.guarded s ha q hg
      exact ⟨hqs, hq.imp (fun hqa => ⟨fun he => hp (he ▸ hg), hqa⟩) id⟩
  · obtain ⟨hne, ha⟩ := Tree.mem_exit.mp hs
    obtain ⟨hzero, hone⟩ := h.pid s ha
    show (w.kernel.sysExit.task s).pid ≠ 0 ∧ ((w.kernel.sysExit.task s).pid = 1 ↔ _)
    rw [hpid, Tree.guardian_exit]
    refine ⟨hzero, ?_⟩
    split_ifs with hp
    · rw [hone, hp]
      exact iff_of_false (Option.some_ne_none _) id
    · exact hone
  · show 1000 ≤ w.kernel.sysExit.startingPid
    rw [show w.kernel.sysExit.startingPid = w.kernel.startingPid from
      (congrArg _ hexit).trans hres.startingPid]
    exact h.startingPid
  · show Tabled w.kernel.sysExit.mm _
    rw [hmm]
    exact h.tabled.exit w.kernel.current w.kernel.idleTask
  · show w.kernel.sysExit.family.IsRing _ _
    rw [hfam]
    exact hring

/-! ## Every event -/

theorem kernelStep_eq_some_iff {k k' : Kernel} {e : Event} :
    k.step e = some k' ↔ (e.byTask = true → k.current ≠ k.idleTask) ∧ k.perform e = some k'
      ∧ k'.mm.stuck = false ∧ k'.stuck = false := by
  rw [Kernel.step]
  by_cases hen : e.byTask = true ∧ k.current = k.idleTask
  · rw [if_pos (by simpa using hen)]
    exact iff_of_false nofun (fun h => h.1 hen.1 hen.2)
  · rw [if_neg (by simpa using hen)]
    have hen' : e.byTask = true → k.current ≠ k.idleTask := fun hb hc => hen ⟨hb, hc⟩
    cases k.perform e with
    | none => exact iff_of_false nofun (fun h => nomatch h.2.1)
    | some k₁ =>
      dsimp only
      split_ifs with hst
      · refine iff_of_false nofun (fun h => ?_)
        obtain rfl := Option.some_inj.mp h.2.1
        rw [h.2.2.1, h.2.2.2] at hst
        exact absurd hst nofun
      · rw [Bool.not_eq_true, Bool.or_eq_false_iff] at hst
        constructor
        · rintro hk
          obtain rfl := Option.some_inj.mp hk
          exact ⟨hen', rfl, hst⟩
        · exact fun h => h.2.1

/-- What a task does, the idle task does not. -/
theorem current_ne {e : Event} (hst : w.step e = some w') (hby : e.byTask = true) :
    w.kernel.current ≠ w.kernel.idleTask :=
  (kernelStep_eq_some_iff.mp (step_eq_some_iff.mp hst).1).1 hby

/-- A child that `sys_unblock` finds is one of the caller's. -/
theorem Sound.findChild (h : w.Sound) (hi : w.kernel.current ≠ w.kernel.idleTask) {pid : ℤ}
    {c : Slot} (hc : w.kernel.findChild pid = some c) :
    w.tree.Child w.kernel.current c := by
  obtain ⟨cs, hring, hcs⟩ := h.families.ring _ (h.current_alive hi)
  rw [Kernel.findChild, walk_childs hring] at hc
  have hmem := List.mem_of_getLast? hc
  rw [List.mem_filter, List.map_map, List.mem_map] at hmem
  obtain ⟨⟨s, hs, rfl⟩, -⟩ := hmem
  exact (hcs s).mp hs

/-- **One event** keeps what holds between two of them. -/
theorem Sound.step (h : w.Sound) {e : Event} (hst : w.step e = some w') :
    w'.Sound ∧ Effect w w' e ∧ w'.kernel.idleTask = w.kernel.idleTask := by
  obtain ⟨l, hq⟩ := h.queued
  obtain ⟨hk, htree⟩ := step_eq_some_iff.mp hst
  obtain ⟨hen, hperf, -, -⟩ := kernelStep_eq_some_iff.mp hk
  obtain ⟨k', t'⟩ := w'
  dsimp only at hk htree hperf ⊢
  subst htree
  cases e with
  | tick =>
    obtain rfl := Option.some_inj.mp hperf
    obtain ⟨l', hq', hres⟩ := Kernel.schedule_spec hq
    exact h.quiet hq' hres.quiet nofun
  | fork =>
    obtain rfl := Option.some_inj.mp hperf
    exact h.fork (hen rfl)
  | exit =>
    obtain rfl := Option.some_inj.mp hperf
    obtain ⟨hs, heff, hidle, -⟩ := h.exit hq (hen rfl)
    exact ⟨hs, heff, hidle⟩
  | block =>
    obtain rfl := Option.some_inj.mp hperf
    obtain ⟨l', hq', hquiet⟩ := Kernel.sysBlock_spec hq (hen rfl)
    exact h.quiet hq' hquiet nofun
  | unblock pid =>
    obtain rfl := Option.some_inj.mp hperf
    obtain ⟨l', hq', hquiet⟩ := Kernel.sysUnblock_spec hq pid (fun c hc => by
      have hchild := h.findChild (hen rfl) hc
      exact ⟨Or.inl hchild.1, h.alive_ne hchild.1, (h.guarded c hchild.1 _ hchild.2).1.symm⟩)
    exact h.quiet hq' hquiet nofun
  | store addr b =>
    have hstore : w.kernel.userStore addr b = some k' := hperf
    rw [Kernel.userStore] at hstore
    split_ifs at hstore with hcan
    obtain ⟨loc, -, rfl⟩ := Option.map_eq_some_iff.mp hstore
    have hq' : ({ w.kernel with mm := w.kernel.mm.store loc b } : Kernel).Queued w.tree l :=
      hq.congr rfl (fun _ => ⟨rfl, rfl⟩) rfl rfl rfl
    have hquiet : Kernel.Quiet w.kernel { w.kernel with mm := w.kernel.mm.store loc b } :=
      ⟨rfl, rfl, rfl, rfl, rfl, fun _ => rfl⟩
    exact h.quiet hq' hquiet nofun

/-- What a fork that succeeds has done. -/
theorem Sound.forked (h : w.Sound) {c : Slot} (hst : w.step .fork = some w')
    (hpos : 0 < w.kernel.sysFork.1) (hnext : w.kernel.nextFree = some c) :
    w.kernel.current ∈ w.tree.alive ∧ w.kernel.current ≠ c ∧ c ∉ w.tree.alive
      ∧ numPagData ≤ (freeFrames w.kernel.mm.physMem).length
      ∧ w'.tree = w.tree.fork w.kernel.current c
      ∧ w'.kernel.mm = forkedMm w.kernel.mm w.kernel.current c := by
  have hcur := h.current_alive (current_ne hst rfl)
  have hdead := (h.free_dead hnext).1
  have hcc : w.kernel.current ≠ c := fun he => hdead (he ▸ hcur)
  obtain ⟨-, heff, -⟩ := h.step hst
  cases heff with
  | quiet _ htree =>
    have hgrow : w'.tree = w.tree.fork w.kernel.current c := by
      rw [(step_eq_some_iff.mp hst).2]
      simp only [grow, hnext, if_pos hpos]
    rw [hgrow] at htree
    have halive := congrArg Tree.alive htree
    exact absurd (halive ▸ Finset.mem_insert_self c w.tree.alive) hdead
  | fork hnext' _ _ hlen _ htree hmm =>
    obtain rfl := Option.some_inj.mp (hnext.symm.trans hnext')
    exact ⟨hcur, hcc, hdead, hlen, htree, hmm⟩

/-- What an exit has done. -/
theorem Sound.exited (h : w.Sound) (hst : w.step .exit = some w') :
    w.kernel.current ≠ w.kernel.idleTask
      ∧ w'.tree = w.tree.exit w.kernel.current w.kernel.idleTask
      ∧ w'.kernel.mm = Mm.exitPages w.kernel.mm w.kernel.current
      ∧ ∃ cs, w'.kernel.family.IsRing (.childs w.kernel.idleTask) (anchors cs)
        ∧ ∀ s, s ∈ cs ↔ w.tree.Child w.kernel.current s := by
  obtain ⟨-, heff, -⟩ := h.step hst
  cases heff with
  | quiet hexit => exact absurd rfl hexit
  | exit hidle htree hmm hring => exact ⟨hidle, htree, hmm, hring⟩

/-! ## Forks and exits that succeed -/

section Succeed

variable (h : w.Sound) {l : Queue → List Slot} (hq : w.kernel.Queued w.tree l)
  (hi : w.kernel.current ≠ w.kernel.idleTask) (hstuck : w.kernel.stuck = false)
  (hmstuck : w.kernel.mm.stuck = false)

include h hq hi hstuck hmstuck

/-- **A fork succeeds** with a free slot, frames for it and an identifier
left. -/
theorem Sound.exists_fork {c : Slot} (hnext : w.kernel.nextFree = some c)
    (hlen : numPagData ≤ (freeFrames w.kernel.mm.physMem).length)
    (hpid : w.kernel.startingPid ≠ intMax) :
    ∃ w', w.step .fork = some w' ∧ 0 < w.kernel.sysFork.1
      ∧ w'.tree = w.tree.fork w.kernel.current c
      ∧ w'.kernel.mm = forkedMm w.kernel.mm w.kernel.current c
      ∧ w'.kernel.idleTask = w.kernel.idleTask ∧ w'.kernel.stuck = false
      ∧ w'.kernel.mm.stuck = false ∧ Spawned w w' l c := by
  have hcur := h.current_alive hi
  have hcc : w.kernel.current ≠ c := fun he => (h.free_dead hnext).1 (he ▸ hcur)
  have hfork := Kernel.sysFork_some hq hnext (h.tabled.kernel _ le_rfl)
  rw [if_pos hlen] at hfork
  obtain ⟨-, hmm, hidle, -, hspawned⟩ := h.spawned hq hi hnext (h.tabled.fork hcur hcc hlen)
    (congrArg Prod.snd hfork).symm
  have hpos : 0 < w.kernel.sysFork.1 := by
    rw [hfork]
    exact Int.lt_add_one_of_le (le_trans (by decide) h.startingPid)
  have hgrow : w.grow .fork = w.tree.fork w.kernel.current c := by
    simp only [grow, hnext, if_pos hpos]
  have hstuck' : w.kernel.sysFork.2.stuck = false := by
    rw [show w.kernel.sysFork.2.stuck = _ from hspawned.stuck, hstuck, Bool.false_or]
    exact decide_eq_false hpid
  have hmstuck' : w.kernel.sysFork.2.mm.stuck = false := by
    rw [hmm, (h.tabled.forkedMm_eq hcur hcc hlen).2.2]
    exact hmstuck
  refine ⟨⟨w.kernel.sysFork.2, w.tree.fork w.kernel.current c⟩, ?_, hpos, rfl, hmm, hidle,
    hstuck', hmstuck', hspawned⟩
  exact step_eq_some_iff.mpr
    ⟨kernelStep_eq_some_iff.mpr ⟨fun _ => hi, rfl, hmstuck', hstuck'⟩, hgrow.symm⟩

/-- **An exit succeeds.** -/
theorem Sound.exists_exit :
    ∃ w', w.step .exit = some w' ∧ w'.tree = w.tree.exit w.kernel.current w.kernel.idleTask
      ∧ w'.kernel.idleTask = w.kernel.idleTask ∧ w'.kernel.stuck = false
      ∧ w'.kernel.mm.stuck = false
      ∧ (l .ready ≠ [] → w'.kernel.current ∈ l .ready) := by
  obtain ⟨-, heff, hidle, hst, hready⟩ := h.exit hq hi
  have hmm : w.kernel.sysExit.mm = Mm.exitPages w.kernel.mm w.kernel.current := by
    cases heff with
    | quiet hexit => exact absurd rfl hexit
    | exit _ _ hmm _ => exact hmm
  have hstuck' : w.kernel.sysExit.stuck = false := hst.trans hstuck
  have hmstuck' : w.kernel.sysExit.mm.stuck = false := by
    rw [hmm, Mm.exitPages_eq]
    exact hmstuck
  refine ⟨⟨w.kernel.sysExit, w.grow .exit⟩, ?_, rfl, hidle, hstuck', hmstuck', hready⟩
  exact step_eq_some_iff.mpr
    ⟨kernelStep_eq_some_iff.mpr ⟨fun _ => hi, rfl, hmstuck', hstuck'⟩, rfl⟩

end Succeed

end World

end ZeOS.Zeos
