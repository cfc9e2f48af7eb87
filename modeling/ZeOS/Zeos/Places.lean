import ZeOS.Zeos.Pending

/-!
# Every slot in one place

What the three queues are meant for: a slot is in one of them, or it is the
one that runs, or it is that of the idle task while it waits outside. Each
function that moves a slot has its own idea of whether the node it moves is
in a queue at that moment. `sched_next_rr` takes the task it runs out of
`readyqueue`, so the node of the current task is in no queue; `sys_exit` and
`schedule` know that, from the state of the task, and only add it.

`sys_block` does not. It deletes the node of the current task before it adds
it to `blocked`, and a deleted node has null pointers. The slots keep their
places exactly as long as no process blocks without an unblock counted for it.
-/

namespace ZeOS.Zeos

/-- The mark that goes with a queue. -/
def Queue.Marks : Queue → State → Prop
  | .free, _ => True
  | .ready, st => st = .ready
  | .blocked, st => st = .blocked

/-- Where a slot is. -/
inductive Place where
  | queued (q : Queue)
  | running
  /-- The slot of the idle task, outside the queues. -/
  | idle
deriving DecidableEq

namespace Kernel

variable {k k' : Kernel} {t : Tree} {l : Queue → List Slot} {S : Set Slot} {s c : Slot}

/-- Whether a slot is at a place, the queues being those given. -/
def At (k : Kernel) (l : Queue → List Slot) (s : Slot) : Place → Prop
  | .queued q => s ∈ l q
  | .running => s = k.current
  | .idle => s = k.idleTask ∧ s ≠ k.current ∧ ∀ q, s ∉ l q

/-- **The slots in their places**: each in exactly one, those of the queues
once in a ring of nodes, with the states that go with the places; and no node
has been deleted that was not linked. -/
structure Orderly (k : Kernel) : Prop where
  queues : ∃ l, Rings k.links l ∧ (∀ s, ∃! p, k.At l s p)
    ∧ (∀ s ∈ l .ready, (k.task s).state = .ready)
    ∧ ∀ s ∈ l .blocked, (k.task s).state = .blocked
  running : (k.task k.current).state = .run
  linked : k.unlinkedDel = false

/-! ## The slots but for some -/

/-- **Every slot but those of `S`** is in its queue, or is that of the idle
task; those of `S` are in none. -/
structure Filed (k : Kernel) (l : Queue → List Slot) (S : Set Slot) : Prop where
  rings : Rings k.links l
  out : ∀ s ∈ S, ∀ q, s ∉ l q
  filed : ∀ s, s ∉ S → s = k.idleTask ∨ ∃ q, s ∈ l q
  idle : ∀ q, q ≠ .ready → k.idleTask ∉ l q
  ready : ∀ s ∈ l .ready, (k.task s).state = .ready
  blocked : ∀ s ∈ l .blocked, (k.task s).state = .blocked
  linked : k.unlinkedDel = false

/-- In a state with the invariant of the queues, orderly is to be filed but
for the task that runs. -/
theorem Orderly.exists_filed (h : k.Orderly) (hq : k.Queued t l) : k.Filed l {k.current} := by
  obtain ⟨l', hr, hplace, hready, hblocked⟩ := h.queues
  obtain rfl := hq.rings.unique hr
  refine ⟨hr, fun s hs q hm => ?_, fun s hs => ?_, fun q hne hm => ?_, hready, hblocked, h.linked⟩
  · obtain ⟨p, -, hp⟩ := hplace s
    have hrun := hp .running hs
    rw [← hp (.queued q) hm] at hrun
    exact Place.noConfusion hrun
  · obtain ⟨p, hp, -⟩ := hplace s
    cases p with
    | queued q => exact Or.inr ⟨q, hp⟩
    | running => exact absurd hp hs
    | idle => exact Or.inl hp.1
  · exact (hq.settled k.idleTask).idle_out hne hm

/-- Filed but for the task that runs, which is marked so, is orderly. -/
theorem Filed.orderly (h : k.Filed l {k.current}) (hrun : (k.task k.current).state = .run) :
    k.Orderly := by
  refine ⟨⟨l, h.rings, fun s => ?_, h.ready, h.blocked⟩, hrun, h.linked⟩
  by_cases hs : s = k.current
  · refine ⟨.running, hs, fun p hp => ?_⟩
    cases p with
    | queued q => exact absurd hp (h.out s hs q)
    | running => rfl
    | idle => exact absurd hs hp.2.1
  · by_cases hq : ∃ q, s ∈ l q
    · obtain ⟨q, hq⟩ := hq
      refine ⟨.queued q, hq, fun p hp => ?_⟩
      cases p with
      | queued q' => rw [h.rings.disjoint q' q s hp hq]
      | running => exact absurd hp hs
      | idle => exact absurd hq (hp.2.2 q)
    · refine ⟨.idle, ⟨(h.filed s hs).resolve_right hq, hs, fun q hm => hq ⟨q, hm⟩⟩,
        fun p hp => ?_⟩
      cases p with
      | queued q => exact absurd ⟨q, hp⟩ hq
      | running => exact absurd hp hs
      | idle => rfl

/-! ## Moves -/

/-- The pointers, the marks of the tasks in the queues, and who the idle task
is are all that is asked about. -/
theorem Filed.congr (h : k.Filed l S) (hlinks : k'.links = k.links)
    (hidle : k'.idleTask = k.idleTask) (hdel : k'.unlinkedDel = k.unlinkedDel)
    (hstate : ∀ s, s ∉ S → (k'.task s).state = (k.task s).state) : k'.Filed l S where
  rings := by
    rw [hlinks]
    exact h.rings
  out := h.out
  filed := by
    rw [hidle]
    exact h.filed
  idle := by
    rw [hidle]
    exact h.idle
  ready s hs := by
    rw [hstate s (fun hm => h.out s hm _ hs)]
    exact h.ready s hs
  blocked s hs := by
    rw [hstate s (fun hm => h.out s hm _ hs)]
    exact h.blocked s hs
  linked := hdel.trans h.linked

/-- The nodes of the slots that are in no queue can change at will. -/
theorem Filed.relink (h : k.Filed l S) (hc : c ∈ S)
    (hlinks : ∀ y, y ≠ .task c → k'.links y = k.links y) (hidle : k'.idleTask = k.idleTask)
    (hdel : k'.unlinkedDel = k.unlinkedDel)
    (hstate : ∀ s, s ∉ S → (k'.task s).state = (k.task s).state) : k'.Filed l S := by
  have hr : Rings k'.links l := h.rings.congr (fun q => hlinks _ (q.head_ne_task c))
    (fun q u hu => hlinks _ (fun he => h.out c hc q (Node.task.inj he ▸ hu)))
  have h' : ({ k with links := k'.links } : Kernel).Filed l S := { h with rings := hr }
  exact h'.congr rfl hidle hdel hstate

/-- **A slot is put at the end of a queue.** -/
theorem Filed.push (h : k.Filed l S) (hs : s ∈ S) {q : Queue}
    (hidle : q = .ready ∨ s ≠ k.idleTask) (hmark : Queue.Marks q (k.task s).state) :
    ∃ l', (k.linkTail (.task s) q.head).Filed l' (S \ {s}) ∧ s ∈ l' q
      ∧ ∀ u, u ≠ s → ∀ q', u ∈ l' q' ↔ u ∈ l q' := by
  obtain ⟨h', hadd, hr, -⟩ := linkTail_eq h.rings q (h.out s hs)
  have hmem := mem_update_push l q s
  refine ⟨Function.update l q (l q ++ [s]), ?_, (hmem s q).mpr (Or.inr ⟨rfl, rfl⟩),
    fun u hu q' => (hmem u q').trans (or_iff_left fun he => hu he.1)⟩
  rw [hadd]
  refine ⟨hr, fun u hu q' hm => ?_, fun u hu => ?_, fun q' hq' hm => ?_, fun u hu => ?_,
    fun u hu => ?_, h.linked⟩
  · rcases (hmem u q').mp hm with hm | ⟨rfl, -⟩
    · exact h.out u hu.1 q' hm
    · exact hu.2 rfl
  · by_cases hus : u = s
    · exact Or.inr ⟨q, (hmem u q).mpr (Or.inr ⟨hus, rfl⟩)⟩
    · refine (h.filed u (fun hm => hu ⟨hm, hus⟩)).imp id ?_
      rintro ⟨q', hm⟩
      exact ⟨q', (hmem u q').mpr (Or.inl hm)⟩
  · rcases (hmem _ q').mp hm with hm | ⟨he, rfl⟩
    · exact h.idle q' hq' hm
    · exact hidle.elim hq' (fun hne => hne he.symm)
  · rcases (hmem u .ready).mp hu with hu | ⟨rfl, rfl⟩
    · exact h.ready u hu
    · exact hmark
  · rcases (hmem u .blocked).mp hu with hu | ⟨rfl, rfl⟩
    · exact h.blocked u hu
    · exact hmark

/-- **A slot is taken out of its queue.** -/
theorem Filed.take (h : k.Filed l S) {q : Queue} (hs : s ∈ l q) :
    ∃ h' l', k.unlink (.task s) = { k with links := h' }
      ∧ ({ k with links := h' } : Kernel).Filed l' (insert s S)
      ∧ ∀ u, u ≠ s → ∀ q', u ∈ l' q' ↔ u ∈ l q' := by
  obtain ⟨h', l', hdel, hr, -, -, hnot, hmem⟩ := exists_unlink h.rings hs
  have hback : ∀ {u q'}, u ∈ l' q' → u ∈ l q' :=
    fun {u q'} hm => (hmem u (fun he => hnot q' (he ▸ hm)) q').mp hm
  refine ⟨h', l', hdel, ⟨hr, fun u hu q' hm => ?_, fun u hu => ?_, fun q' hq' hm => ?_,
    fun u hu => h.ready u (hback hu), fun u hu => h.blocked u (hback hu), h.linked⟩, hmem⟩
  · rcases hu with rfl | hu
    · exact hnot q' hm
    · exact h.out u hu q' (hback hm)
  · rw [Set.mem_insert_iff, not_or] at hu
    refine (h.filed u hu.2).imp id ?_
    rintro ⟨q', hm⟩
    exact ⟨q', (hmem u hu.1 q').mpr hm⟩
  · exact h.idle q' hq' (hback hm)

/-- **A task in no queue gets the CPU.** -/
theorem Filed.dispatch (h : k.Filed l {c}) : (k.dispatch c).Orderly := by
  have hrun : ((k.dispatch c).task c).state = .run := by rw [dispatch_task, if_pos rfl]
  refine Filed.orderly (l := l) (h.congr rfl rfl rfl (fun s hs => ?_)) hrun
  have hsc : s ≠ c := fun he => hs (Set.mem_singleton_iff.mpr he)
  rw [dispatch_task, if_neg hsc]

/-- **`sched_next_rr`**, every slot being in its queue. -/
theorem Filed.schedNextRr (h : k.Filed l ∅) : k.schedNextRr.Orderly := by
  cases hready : l .ready with
  | nil =>
    have hnone : ∀ q, k.idleTask ∉ l q := by
      intro q
      by_cases hq : q = .ready
      · rw [hq, hready]
        exact List.not_mem_nil
      · exact h.idle q hq
    rw [schedNextRr_nil h.rings hready]
    refine Filed.dispatch (l := l) { h with out := fun s hs q => ?_, filed := fun s _ => ?_ }
    · rw [Set.mem_singleton_iff.mp hs]
      exact hnone q
    · exact h.filed s (Set.notMem_empty s)
  | cons c cs =>
    have hcr : c ∈ l .ready := by
      rw [hready]
      exact List.mem_cons_self
    obtain ⟨h', l', hunlink, hf, -⟩ := h.take hcr
    rw [schedNextRr_cons h.rings hready, hunlink]
    rw [insert_empty_eq] at hf
    exact hf.dispatch

/-! ## What the events do -/

theorem linkTail_modifyTask (k : Kernel) (new head : Node) (c : Slot)
    (f : TaskStruct → TaskStruct) :
    (k.linkTail new head).modifyTask c f = (k.modifyTask c f).linkTail new head := by
  unfold linkTail modifyTask
  dsimp only
  cases listAddTail k.links new head <;> rfl

/-- A mark put on a task that is in no queue. -/
theorem Filed.mark (h : k.Filed l S) (hc : c ∈ S) (f : TaskStruct → TaskStruct) :
    (k.modifyTask c f).Filed l S := by
  refine h.congr rfl rfl rfl (fun s hs => ?_)
  have hsc : s ≠ c := fun he => hs (he ▸ hc)
  rw [modifyTask_apply, if_neg hsc]

/-- The current task, marked as the queue asks, is put into it and the next
one runs. -/
theorem Filed.switch (h : k.Filed l {s}) {q : Queue} (hidle : q = .ready ∨ s ≠ k.idleTask)
    (hmark : Queue.Marks q (k.task s).state) :
    (k.linkTail (.task s) q.head).schedNextRr.Orderly := by
  obtain ⟨l', hf, -⟩ := h.push rfl hidle hmark
  rw [Set.sdiff_self] at hf
  exact hf.schedNextRr

/-- **`schedule`.** -/
theorem Filed.schedule (h : k.Filed l {k.current}) (hrun : (k.task k.current).state = .run) :
    k.schedule.Orderly := by
  have hticks : ∀ n, ({ k with ticksSinceCpu := n } : Kernel).Filed l {k.current} :=
    fun n => h.congr rfl rfl rfl (fun _ _ => rfl)
  rw [schedule_eq]
  split_ifs with hpos hempty
  · exact (hticks (k.ticksSinceCpu - 1)).orderly hrun
  · exact (hticks (k.task k.current).quantum).orderly hrun
  · have hk := hticks (k.ticksSinceCpu - 1)
    set k₁ : Kernel := { k with ticksSinceCpu := k.ticksSinceCpu - 1 } with hk₁
    have hrun₁ : (k₁.task k₁.current).state = .run := hrun
    show (k₁.updateProcessStateRr k₁.current (some .readyqueue)).schedNextRr.Orderly
    have hne : (.run : State) ≠ .blocked := fun he => Practica.State.noConfusion he
    rw [updateProcessStateRr, hrun₁, if_pos hne, if_neg (not_not.mpr rfl)]
    simp only [if_pos]
    rw [linkTail_modifyTask]
    refine Filed.switch (q := .ready) (hk.mark (Set.mem_singleton k₁.current) _) (Or.inl rfl) ?_
    show ((k₁.modifyTask k₁.current _).task k₁.current).state = .ready
    rw [modifyTask_apply, if_pos rfl]

/-- **The end of `sys_exit`.** -/
theorem Filed.retire (h : k.Filed l {k.current}) (hrun : (k.task k.current).state = .run)
    (hidle : k.current ≠ k.idleTask) :
    (k.updateProcessStateRr k.current (some .freequeue)).schedNextRr.Orderly := by
  have hne : (.run : State) ≠ .blocked := fun he => Practica.State.noConfusion he
  have hqueue : Node.freequeue ≠ .readyqueue := Node.noConfusion
  rw [updateProcessStateRr, hrun, if_pos hne, if_neg (not_not.mpr rfl)]
  simp only [if_neg hqueue]
  exact h.switch (q := .free) (Or.inr hidle) trivial

/-- A slot taken out of a queue, or not, that is put into one again. -/
theorem Filed.requeue (h : k.Filed l (insert s {k.current})) (hs : s ≠ k.current)
    (hrun : (k.task k.current).state = .run) {q : Queue} (hidle : q = .ready ∨ s ≠ k.idleTask)
    (hmark : Queue.Marks q (k.task s).state) : (k.linkTail (.task s) q.head).Orderly := by
  obtain ⟨h', hadd, -, -⟩ := linkTail_eq h.rings q (h.out s (Set.mem_insert s _))
  obtain ⟨l', hf, -⟩ := h.push (Set.mem_insert s _) hidle hmark
  rw [Set.insert_sdiff_of_mem _ (Set.mem_singleton s),
    Set.sdiff_singleton_eq_self (fun he => hs (Set.mem_singleton_iff.mp he))] at hf
  rw [hadd] at hf ⊢
  exact hf.orderly hrun

theorem linkKin_frame (k : Kernel) (new head : Kin) :
    (k.linkKin new head).links = k.links ∧ (k.linkKin new head).task = k.task
      ∧ (k.linkKin new head).current = k.current ∧ (k.linkKin new head).idleTask = k.idleTask
      ∧ (k.linkKin new head).unlinkedDel = k.unlinkedDel := by
  rw [linkKin]
  cases listAddTail k.family new head <;> exact ⟨rfl, rfl, rfl, rfl, rfl⟩

/-- **The child is put into `readyqueue`.** -/
theorem Filed.startChild (h : k.Filed l (insert c {k.current})) (hc : c ≠ k.current)
    (hrun : (k.task k.current).state = .run) : (k.startChild c).Orderly := by
  set k₁ : Kernel :=
    { ({ k with
        startingPid := k.startingPid + 1
        stuck := k.stuck || decide (k.startingPid = intMax) } : Kernel).modifyTask c
        (fun u => { u with
          pid := k.startingPid + 1, state := .ready, pParent := some k.current,
          pendingUnblocks := 0 }) with
      family := initListHead k.family (.childs c) } with hk₁
  obtain ⟨hlinks, htask, hcur, hidle, hdel⟩ :=
    linkKin_frame k₁ (.aParentList c) (.childs k.current)
  set k₂ := k₁.linkKin (.aParentList c) (.childs k.current) with hk₂
  have htask₂ : ∀ s, s ≠ c → k₂.task s = k.task s := fun s hs => by
    rw [htask]
    show Function.update k.task c _ s = _
    rw [Function.update_of_ne hs]
  have hcur₂ : k₂.current = k.current := hcur
  have h₂ : k₂.Filed l (insert c {k₂.current}) := by
    rw [hcur₂]
    refine h.congr hlinks hidle hdel (fun s hs => ?_)
    rw [htask₂ s (fun he => hs (Or.inl he))]
  have hready : (k₂.task c).state = .ready := by
    rw [htask]
    show (Function.update k.task c _ c).state = _
    rw [Function.update_self]
  show (k₂.linkTail (.task c) Queue.ready.head).Orderly
  refine h₂.requeue (by rwa [hcur₂]) ?_ (Or.inl rfl) hready
  rw [hcur₂, htask₂ _ hc.symm]
  exact hrun

/-- **A slot taken for a child.** -/
theorem Filed.reserve (h : k.Filed l {k.current}) (hc : c ∈ l .free) :
    ∃ l', (k.reserve c).Filed l' (insert c {k.current}) ∧ (k.reserve c).current = k.current
      ∧ (k.reserve c).idleTask = k.idleTask
      ∧ ∀ s, s ≠ c → (k.reserve c).task s = k.task s := by
  obtain ⟨h', l', hunlink, hf, -⟩ := h.take hc
  have htask : ∀ s, s ≠ c → (k.reserve c).task s = k.task s := fun s hs => by
    rw [Kernel.reserve, hunlink]
    show Function.update (Function.update k.task c _) c _ s = _
    rw [Function.update_of_ne hs, Function.update_of_ne hs]
  refine ⟨l', hf.relink (Set.mem_insert c _) ?_ ?_ ?_ ?_, ?_, ?_, htask⟩
  · intro y hy
    rw [Kernel.reserve, hunlink]
    exact Function.update_of_ne hy _ h'
  · rw [Kernel.reserve, hunlink]
    rfl
  · rw [Kernel.reserve, hunlink]
    rfl
  · intro s hs
    rw [htask s (fun he => hs (Or.inl he))]
  · rw [Kernel.reserve, hunlink]
    rfl
  · rw [Kernel.reserve, hunlink]
    rfl

/-- **A fork completed.** -/
theorem Filed.spawn (h : k.Filed l {k.current}) (hrun : (k.task k.current).state = .run)
    (hc : c ∈ l .free) (m : Mm) :
    ((({ k.reserve c with mm := m } : Kernel).setCr3 k.current).startChild c).Orderly := by
  have hcc : c ≠ k.current := fun he => h.out c he .free hc
  obtain ⟨l', hres, hcur, -, htask⟩ := h.reserve hc
  set k₁ : Kernel := ({ k.reserve c with mm := m } : Kernel).setCr3 k.current with hk₁
  have hcur₁ : k₁.current = k.current := hcur
  have hf₁ : k₁.Filed l' (insert c {k₁.current}) := by
    rw [hcur₁]
    exact hres.congr rfl rfl rfl (fun _ _ => rfl)
  refine hf₁.startChild (by rwa [hcur₁]) ?_
  rw [hcur₁]
  show ((k.reserve c).task k.current).state = .run
  rw [htask _ hcc.symm]
  exact hrun

/-- **A fork given up.** -/
theorem Filed.giveUp (h : k.Filed l {k.current}) (hrun : (k.task k.current).state = .run)
    (hc : c ∈ l .free) : ((k.reserve c).linkTail (.task c) .freequeue).Orderly := by
  have hcc : c ≠ k.current := fun he => h.out c he .free hc
  have hci : c ≠ k.idleTask := fun he => h.idle .free nofun (he ▸ hc)
  obtain ⟨l', hres, hcur, hidle, htask⟩ := h.reserve hc
  have hrun' : ((k.reserve c).task k.current).state = .run := by
    rw [htask _ hcc.symm]
    exact hrun
  rw [← hcur] at hres hrun' hcc
  exact hres.requeue (q := .free) hcc hrun' (Or.inr (hidle ▸ hci)) trivial

/-- **`sys_fork`.** -/
theorem Orderly.sysFork (h : k.Orderly) (hq : k.Queued t l)
    (hfirst : k.mm.physMem numPagKernel ≠ 0) : k.sysFork.2.Orderly := by
  have hf := h.exists_filed hq
  cases hnext : k.nextFree with
  | none =>
    rw [sysFork_none hq.rings hnext]
    exact h
  | some c =>
    have hc := mem_free_of_nextFree hq.rings hnext
    rw [sysFork_some hq hnext hfirst]
    by_cases hlen : numPagData ≤ (Practica.freeFrames k.mm.physMem).length
    · rw [if_pos hlen]
      exact hf.spawn h.running hc (forkedMm k.mm k.current c)
    · rw [if_neg hlen]
      exact hf.giveUp h.running hc

theorem unlink_modifyTask (k : Kernel) (entry : Node) (c : Slot) (f : TaskStruct → TaskStruct) :
    (k.modifyTask c f).unlink entry = (k.unlink entry).modifyTask c f := by
  unfold unlink modifyTask
  dsimp only
  cases listDel k.links entry with
  | some h => rfl
  | none =>
    dsimp only
    split_ifs
    · unfold storeNull
      dsimp only
      cases k.mm.translate k.cr3 0 <;> rfl
    · rfl

/-- **`sys_unblock`** of a child that is alive. -/
theorem Orderly.sysUnblock (h : k.Orderly) (hq : k.Queued t l) (pid : ℤ)
    (hfound : ∀ c, k.findChild pid = some c → k.Tended t c ∧ c ≠ k.current) :
    (k.sysUnblock pid).2.Orderly := by
  have hf := h.exists_filed hq
  unfold Kernel.sysUnblock
  cases hc : k.findChild pid with
  | none => exact h
  | some c =>
    obtain ⟨htended, hcc⟩ := hfound c hc
    dsimp only
    split_ifs with hstate
    · have hblocked : c ∈ l .blocked := ((hq.settled c).state htended).mp hstate
      obtain ⟨h', l', hunlink, hf', -⟩ := hf.take hblocked
      rw [unlink_modifyTask, hunlink]
      refine Filed.requeue (q := .ready) (hf'.mark (Set.mem_insert c _) _) hcc ?_ (Or.inl rfl) ?_
      · show (Function.update k.task c _ k.current).state = .run
        rw [Function.update_of_ne hcc.symm]
        exact h.running
      · show (Function.update k.task c _ c).state = .ready
        rw [Function.update_self]
    · refine Filed.orderly (l := l) (hf.congr rfl rfl rfl (fun s _ => ?_)) ?_
      · rw [modifyTask_apply]
        split_ifs with hs
        · rw [hs]
        · rfl
      · show (Function.update k.task c _ k.current).state = .run
        rw [Function.update_of_ne hcc.symm]
        exact h.running

/-! ## The condition -/

/-- A process that calls `sys_block` has an unblock counted. -/
def BlocksCounted (k : Kernel) (e : Event) : Prop :=
  e = .block → (k.task k.current).pendingUnblocks ≠ 0

/-- A call of `sys_block` with an unblock counted only takes it off. -/
theorem Orderly.sysBlock (h : k.Orderly) (hq : k.Queued t l)
    (hpend : (k.task k.current).pendingUnblocks ≠ 0) : k.sysBlock.Orderly := by
  rw [sysBlock_of_counted hpend]
  refine Filed.orderly (l := l) ((h.exists_filed hq).mark (Set.mem_singleton k.current) _) ?_
  show (Function.update k.task k.current _ k.current).state = .run
  rw [Function.update_self]
  exact h.running

theorem unlink_unlinkedDel (k : Kernel) (entry : Node) :
    (k.unlink entry).unlinkedDel = (k.unlinkedDel || !listLinked k.links entry) := by
  unfold unlink
  dsimp only
  cases listDel k.links entry with
  | some h => rfl
  | none =>
    dsimp only
    split_ifs
    · unfold storeNull
      dsimp only
      cases k.mm.translate k.cr3 0 <;> rfl
    · rfl

theorem linkTail_unlinkedDel (k : Kernel) (new head : Node) :
    (k.linkTail new head).unlinkedDel = k.unlinkedDel := by
  rw [linkTail]
  cases listAddTail k.links new head <;> rfl

/-- A deletion of an unlinked node is not taken back by the scheduler. -/
theorem schedNextRr_unlinkedDel (h : k.unlinkedDel = true) :
    k.schedNextRr.unlinkedDel = true := by
  rw [schedNextRr]
  split_ifs
  · cases (listFirst k.links .readyqueue).bind listHeadToTaskStruct with
    | none => exact h
    | some c =>
      show (k.unlink (.task c)).unlinkedDel = true
      rw [unlink_unlinkedDel, h, Bool.true_or]
  · exact h

theorem schedule_unlinkedDel (h : k.unlinkedDel = true) : k.schedule.unlinkedDel = true := by
  rw [schedule_eq]
  split_ifs
  · exact h
  · exact h
  · refine schedNextRr_unlinkedDel ?_
    unfold updateProcessStateRr
    split_ifs
    · show (Kernel.linkTail _ _ _).unlinkedDel = true
      rw [linkTail_unlinkedDel, unlink_unlinkedDel, h, Bool.true_or]
    · show (Kernel.linkTail _ _ _).unlinkedDel = true
      rw [linkTail_unlinkedDel]
      exact h
    · exact h

/-- **`sys_block` with nothing counted** deletes the node of the running
process, which is in no queue. -/
theorem Orderly.sysBlock_unlinkedDel (h : k.Orderly) (hq : k.Queued t l)
    (hpend : (k.task k.current).pendingUnblocks = 0) : k.sysBlock.unlinkedDel = true := by
  have hout := (h.exists_filed hq).out k.current rfl
  have hnone := (hq.settled k.current).unlinked hq.current_tended hout
  rw [Kernel.sysBlock]
  dsimp only
  rw [if_pos hpend]
  refine schedule_unlinkedDel ?_
  rw [linkTail_unlinkedDel, unlink_unlinkedDel]
  show (k.unlinkedDel || !listLinked k.links (.task k.current)) = true
  rw [listLinked, hnone]
  exact Bool.or_true _

end Kernel

namespace World

variable {w w' : World}

/-- **One event** leaves the slots in their places if it is no call of
`sys_block` with nothing counted. -/
theorem Sound.step_orderly (h : w.Sound) (ho : w.kernel.Orderly) {e : Event}
    (hst : w.step e = some w') : w'.kernel.Orderly ↔ w.kernel.BlocksCounted e := by
  obtain ⟨l, hq⟩ := h.queued
  have hf := ho.exists_filed hq
  obtain ⟨hen, hperf, -, -⟩ := kernelStep_eq_some_iff.mp (step_eq_some_iff.mp hst).1
  cases e with
  | tick =>
    have hk : w.kernel.schedule = w'.kernel := Option.some_inj.mp hperf
    rw [← hk]
    exact iff_of_true (hf.schedule ho.running) Event.noConfusion
  | fork =>
    have hk : w.kernel.sysFork.2 = w'.kernel := Option.some_inj.mp hperf
    rw [← hk]
    exact iff_of_true (ho.sysFork hq (h.tabled.kernel _ le_rfl)) Event.noConfusion
  | exit =>
    have hk : w.kernel.sysExit = w'.kernel := Option.some_inj.mp hperf
    obtain ⟨h₁, -, hexit, -⟩ := h.sysExit_eq hq (hen rfl)
    rw [← hk, hexit]
    refine iff_of_true ?_ Event.noConfusion
    exact Kernel.Filed.retire (l := l) (hf.congr rfl rfl rfl (fun _ _ => rfl)) ho.running (hen rfl)
  | block =>
    have hk : w.kernel.sysBlock = w'.kernel := Option.some_inj.mp hperf
    rw [← hk]
    constructor
    · intro ho' _ hpend
      have hlinked := ho'.linked
      rw [ho.sysBlock_unlinkedDel hq hpend] at hlinked
      exact Bool.noConfusion hlinked
    · exact fun hcounted => ho.sysBlock hq (hcounted rfl)
  | unblock pid =>
    have hk : (w.kernel.sysUnblock pid).2 = w'.kernel := Option.some_inj.mp hperf
    rw [← hk]
    refine iff_of_true (ho.sysUnblock hq pid fun c hc => ?_) Event.noConfusion
    have hchild := h.findChild (hen rfl) hc
    exact ⟨Or.inl hchild.1, (h.guarded c hchild.1 _ hchild.2).1.symm⟩
  | store addr b =>
    have hstore : w.kernel.userStore addr b = some w'.kernel := hperf
    rw [Kernel.userStore] at hstore
    split_ifs at hstore
    obtain ⟨loc, -, hk⟩ := Option.map_eq_some_iff.mp hstore
    rw [← hk]
    refine iff_of_true ?_ Event.noConfusion
    exact Kernel.Filed.orderly (l := l) (hf.congr rfl rfl rfl (fun _ _ => rfl)) ho.running

/-- The slots are in their places after boot. -/
theorem orderly_boot (ram : Location → Byte) : (boot ram).kernel.Orderly := by
  obtain ⟨-, hcur, hidle, -, -, -, htask, -, -⟩ := boot_frame ram
  have hrings := (queued_boot ram).rings
  have hdel : (boot ram).kernel.unlinkedDel = false := by
    obtain ⟨h', heq, -⟩ := Kernel.boot_eq ram
    exact congrArg Kernel.unlinkedDel heq
  refine Kernel.Filed.orderly (l := Kernel.bootQueues) ⟨hrings, ?_, ?_, ?_, ?_, ?_, hdel⟩ ?_
  · rw [hcur]
    rintro s rfl q
    cases q <;> decide
  · rw [hcur, hidle]
    intro s hs
    by_cases h9 : s = 9
    · exact Or.inl h9
    · have hmem : ∀ s : Slot, s ≠ 8 → s ≠ 9 → s ∈ Kernel.bootQueues .free := by decide
      exact Or.inr ⟨.free, hmem s hs h9⟩
  · rw [hidle]
    intro q _
    cases q <;> decide
  · exact fun s hs => absurd hs List.not_mem_nil
  · exact fun s hs => absurd hs List.not_mem_nil
  · rw [htask, hcur]
    decide

/-- **The places of the slots, in a run.** Every slot is in exactly one place
in all the states of a run from boot exactly if no process calls `sys_block`
without an unblock counted for it. -/
theorem orderly_iff_blocksCounted {ram : Location → Byte} {es : List Event}
    (hrun : Run World.step (fun _ _ => True) (boot ram) es w) :
    (∀ bs cs u, es = bs ++ cs → Run World.step (fun _ _ => True) (boot ram) bs u →
        u.kernel.Orderly)
      ↔ Run World.step (fun u e => True ∧ u.kernel.BlocksCounted e) (boot ram) es w :=
  Run.always_iff (I := World.Sound) (fun _ _ _ hs _ hst => (hs.step hst).1)
    (fun _ _ _ hs ho _ hst => hs.step_orderly ho hst) hrun (sound_boot ram).1 (orderly_boot ram)

/-- **A child calls `sys_block` as soon as it runs**: the node of the running
process is deleted, which is in no queue. -/
theorem not_orderly_block :
    ∃ w, Run World.step (fun _ _ => True) (boot (fun _ => 0)) [.fork, .tick, .block] w
      ∧ ¬ w.kernel.Orderly := by
  obtain ⟨u, w, hrun, hst, hpend, -⟩ := exists_block_returns (fun _ => 0)
  have hrun' : Run World.step (fun _ _ => True) (boot (fun _ => 0)) ([.fork, .tick] ++ [.block]) w :=
    hrun.snoc trivial hst
  refine ⟨w, hrun', fun ho => ?_⟩
  -- the two events before keep the places
  have hcounted : Run World.step (fun _ e => True ∧ e ≠ Event.block) (boot (fun _ => 0))
      [.fork, .tick] u := Run.and_iff.mpr ⟨hrun, by decide⟩
  have hu : u.Sound ∧ u.kernel.Orderly := by
    refine hcounted.invariant (I := fun v => v.Sound ∧ v.kernel.Orderly) ?_
      ⟨(sound_boot _).1, orderly_boot _⟩
    intro v e v' hv he hst'
    exact ⟨(hv.1.step hst').1, (hv.1.step_orderly hv.2 hst').mpr (fun hc => absurd hc he.2)⟩
  exact (hu.1.step_orderly hu.2 hst).mp ho rfl hpend

/-- The initial process forks and calls `sys_unblock` for its child, which
calls `sys_block` as soon as it runs. -/
theorem orderly_iff_blocksCounted_unblock :
    ∃ pid w, Run World.step (fun _ _ => True) (boot (fun _ => 0))
        [.fork, .unblock pid, .tick, .block] w
      ∧ ∀ bs cs u, [Event.fork, .unblock pid, .tick, .block] = bs ++ cs →
          Run World.step (fun _ _ => True) (boot (fun _ => 0)) bs u → u.kernel.Orderly := by
  obtain ⟨w₁, l, hst₁, hq₁, hready, hyields, -, hcur₁, hrun₁, hchild, htree₁, hidle₁, hstuck₁,
    hmstuck₁, -⟩ := exists_fork_yields (fun _ => 0)
  have h₁ := ((sound_boot (fun _ => 0)).1.step hst₁).1
  have hi₁ : w₁.kernel.current ≠ w₁.kernel.idleTask := by
    rw [hcur₁, hidle₁]
    decide
  -- the unblock is counted for the child
  set pid := (w₁.kernel.task 7).pid with hpid
  have hnamed : w₁.Named := by
    refine (named_boot (fun _ => 0)).turn ((sound_boot (fun _ => 0)).1.turn (named_boot _) ?_
      Event.noConfusion hst₁)
    rw [(orderly_boot _).running]
    exact nofun
  have hfound : w₁.kernel.findChild pid = some 7 := by
    refine (h₁.findChild_iff hnamed hi₁).mpr (decide_eq_true ⟨?_, rfl⟩)
    rw [htree₁, hcur₁]
    decide
  obtain ⟨-, htask₂, hcur₂, hlinks₂, hticks₂, hmm₂, hstuck₂⟩ :=
    Kernel.sysUnblock_counts hfound (by rw [hchild]; exact nofun)
  have hst₂ : w₁.step (.unblock pid) = some ⟨(w₁.kernel.sysUnblock pid).2, w₁.tree⟩ := by
    refine step_eq_some_iff.mpr ⟨kernelStep_eq_some_iff.mpr ⟨fun _ => hi₁, rfl, ?_, ?_⟩, rfl⟩
    · rw [hmm₂, hmstuck₁]
    · rw [hstuck₂, hstuck₁, hchild]
      rfl
  have h₂ := (h₁.step hst₂).1
  generalize (w₁.kernel.sysUnblock pid).2 = k₂ at *
  -- the child is still the first ready task
  obtain ⟨l₂, hq₂⟩ := h₂.queued
  obtain rfl : l₂ = l := hq₂.rings.unique (hlinks₂ ▸ hq₁.rings)
  have hyields₂ : k₂.Yields := by
    unfold Kernel.Yields at *
    rwa [hticks₂, hlinks₂]
  obtain ⟨-, -, hmstuck₂, hstuck₂⟩ := kernelStep_eq_some_iff.mp (step_eq_some_iff.mp hst₂).1
  have hst₃ := h₂.step_tick hstuck₂ hmstuck₂
  obtain ⟨h', hsched, -⟩ := Kernel.schedule_yields hq₂ hyields₂ hready
  have hcur₃ : k₂.schedule.current = 7 := by rw [hsched]; rfl
  have hpend₃ : (k₂.schedule.task k₂.schedule.current).pendingUnblocks ≠ 0 := by
    rw [hcur₃, ((Kernel.schedule_turn hq₂).1 7).1, htask₂, Function.update_self, hchild]
    decide
  have h₃ := h₂.step hst₃
  -- and the call takes it off
  have hst₄ : World.step ⟨k₂.schedule, w₁.tree⟩ .block = some ⟨k₂.schedule.sysBlock, w₁.tree⟩ := by
    obtain ⟨-, -, hmstuck₃, hstuck₃⟩ := kernelStep_eq_some_iff.mp (step_eq_some_iff.mp hst₃).1
    refine step_eq_some_iff.mpr ⟨kernelStep_eq_some_iff.mpr ⟨fun _ => ?_, rfl, ?_, ?_⟩, rfl⟩
    · show k₂.schedule.current ≠ k₂.schedule.idleTask
      rw [hcur₃, h₃.2.2, show k₂.idleTask = _ from (h₁.step hst₂).2.2, hidle₁]
      decide
    · rw [Kernel.sysBlock_of_counted hpend₃]
      exact hmstuck₃
    · rw [Kernel.sysBlock_of_counted hpend₃]
      exact hstuck₃
  have hgood : Run World.step (fun u e => True ∧ u.kernel.BlocksCounted e) (boot (fun _ => 0))
      ([.fork] ++ [.unblock pid] ++ [.tick] ++ [.block]) ⟨k₂.schedule.sysBlock, w₁.tree⟩ :=
    (((Run.single ⟨trivial, Event.noConfusion⟩ hst₁).snoc ⟨trivial, Event.noConfusion⟩ hst₂).snoc
      ⟨trivial, Event.noConfusion⟩ hst₃).snoc ⟨trivial, fun _ => hpend₃⟩ hst₄
  have hrun := hgood.mono fun _ _ _ => trivial
  exact ⟨pid, _, hrun, (orderly_iff_blocksCounted hrun).mpr hgood⟩

end World

end ZeOS.Zeos
