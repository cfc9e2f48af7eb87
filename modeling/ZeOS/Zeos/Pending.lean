import ZeOS.Zeos.Turns

/-!
# The marks of the processes over one event

What a process waits for is in two fields of its structure: whether `state` is
`ST_BLOCKED`, and how many unblocks are pending. `sys_block` changes them for
the process that calls it and `sys_unblock` for the child it is called for; a
child is made with nothing pending, and whatever else happens leaves both as
they were. `Turn` says this of an event, together with who has the CPU after
it; an exit is left out.

That `sys_unblock` reaches one child and no other is a fact about identifiers:
`Named` keeps them different.
-/

namespace ZeOS.Zeos

open Practica (freeFrames)

instance (t : Tree) (q s : Slot) : Decidable (t.Child q s) :=
  inferInstanceAs (Decidable (_ ∧ _))

namespace World

/-- Whether the event is a call of `sys_unblock` by the parent of the process
in the slot, with its identifier. -/
def addresses (w : World) (e : Event) (s : Slot) : Bool :=
  match e with
  | .unblock pid =>
    decide (w.tree.Child w.kernel.current s ∧ (w.kernel.task s).pid = pid)
  | _ => false

/-- Whether the event is a call of `sys_block` by the process in the slot. -/
def blocks (w : World) (e : Event) (s : Slot) : Bool :=
  match e with
  | .block => decide (s = w.kernel.current)
  | _ => false

end World

/-! ## One event -/

/-- The count of a process and whether it is marked as blocked are as they
were. -/
def SameMark (c c' : TaskStruct) : Prop :=
  c'.pendingUnblocks = c.pendingUnblocks ∧ (c'.state = .blocked ↔ c.state = .blocked)

theorem SameMark.of_eq {c c' : TaskStruct} (h : c' = c) : SameMark c c' := by
  rw [h]
  exact ⟨rfl, Iff.rfl⟩

namespace Kernel

variable {k : Kernel} {t : Tree} {l : Queue → List Slot}

/-- **`schedule`** changes no count and no mark, and whoever gets the CPU from
it was ready. -/
theorem schedule_turn (hq : k.Queued t l) :
    (∀ s, SameMark (k.task s) (k.schedule.task s))
      ∧ (¬ k.Yields → k.schedule.current = k.current)
      ∧ (k.Yields → k.schedule.current ≠ k.current
        ∧ (k.task k.schedule.current).state = .ready) := by
  by_cases hy : k.Yields
  · obtain ⟨c, cs, hl⟩ := exists_ready hq.rings hy
    obtain ⟨h', hsched, -⟩ := schedule_yields hq hy hl
    have hc : c ∈ l .ready := by
      rw [hl]
      exact List.mem_cons_self
    have hready := ((hq.settled c).ready hc).1
    have hcc : c ≠ k.current := fun he => hq.current_ready (he ▸ hc)
    have hput : ∀ s, SameMark (k.task s) (k.putBack s) := by
      intro s
      unfold putBack
      split_ifs with hblocked
      · exact SameMark.of_eq rfl
      · rw [Function.update_apply]
        split_ifs with hs
        · rw [hs]
          exact ⟨rfl, iff_of_false nofun hblocked⟩
        · exact SameMark.of_eq rfl
    have hcurrent : k.schedule.current = c := by
      rw [hsched]
      rfl
    refine ⟨fun s => ?_, fun hn => absurd hy hn, fun _ => ?_⟩
    · rw [hsched, dispatch_task]
      split_ifs with hs
      · rw [hs]
        exact ⟨(hput c).1, iff_of_false nofun (by rw [hready]; exact nofun)⟩
      · exact hput s
    · rw [hcurrent]
      exact ⟨hcc, hready⟩
  · obtain ⟨n, hsched⟩ := schedule_stays hy
    rw [hsched]
    exact ⟨fun _ => SameMark.of_eq rfl, fun _ => rfl, fun hy' => absurd hy' hy⟩

end Kernel

namespace World

variable {w w' : World}

/-- The identifiers of the processes are different, and none is to come. -/
structure Named (w : World) : Prop where
  le : ∀ s ∈ w.tree.alive, (w.kernel.task s).pid ≤ w.kernel.startingPid
  inj : ∀ s ∈ w.tree.alive, ∀ s' ∈ w.tree.alive,
    (w.kernel.task s).pid = (w.kernel.task s').pid → s = s'

/-- The child that `sys_unblock` finds. -/
theorem Sound.findChild_iff (h : w.Sound) (hn : w.Named)
    (hi : w.kernel.current ≠ w.kernel.idleTask) {pid : ℤ} {c : Slot} :
    w.kernel.findChild pid = some c ↔ w.addresses (.unblock pid) c = true := by
  obtain ⟨cs, hring, hcs⟩ := h.families.ring _ (h.current_alive hi)
  have hfind : w.kernel.findChild pid
      = (cs.filter (fun s => decide ((w.kernel.task s).pid = pid))).getLast? := by
    rw [Kernel.findChild, walk_childs hring, List.map_map]
    exact congrArg (fun l : List Slot =>
      (l.filter (fun s => decide ((w.kernel.task s).pid = pid))).getLast?) (List.map_id cs)
  have hmem : ∀ {s}, w.kernel.findChild pid = some s → w.addresses (.unblock pid) s = true := by
    intro s hs
    rw [hfind] at hs
    obtain ⟨hc, hp⟩ := List.mem_filter.mp (List.mem_of_getLast? hs)
    exact decide_eq_true ⟨(hcs s).mp hc, of_decide_eq_true hp⟩
  refine ⟨hmem, fun hc => ?_⟩
  obtain ⟨hchild, hp⟩ := of_decide_eq_true hc
  have hin : c ∈ cs.filter (fun s => decide ((w.kernel.task s).pid = pid)) :=
    List.mem_filter.mpr ⟨(hcs c).mpr hchild, decide_eq_true hp⟩
  cases hlast : w.kernel.findChild pid with
  | none =>
    rw [hfind, List.getLast?_eq_none_iff] at hlast
    exact absurd hlast (List.ne_nil_of_mem hin)
  | some s =>
    obtain ⟨hchild', hp'⟩ := of_decide_eq_true (hmem hlast)
    rw [hn.inj s hchild'.1 c hchild.1 (hp'.trans hp.symm)]

/-- **What an event does to the processes**, if it is no exit. -/
structure Turn (w : World) (e : Event) (w' : World) : Prop where
  alive : ∀ s ∈ w.tree.alive, s ∈ w'.tree.alive
  pid : ∀ s ∈ w.tree.alive, (w'.kernel.task s).pid = (w.kernel.task s).pid
  startingPid : w.kernel.startingPid ≤ w'.kernel.startingPid
  /-- A child starts with nothing counted. -/
  born : ∀ s ∈ w'.tree.alive, s ∉ w.tree.alive → (w'.kernel.task s).pendingUnblocks = 0
    ∧ (w'.kernel.task s).state = .ready ∧ w'.kernel.current ≠ s
    ∧ (w'.kernel.task s).pid = w.kernel.startingPid + 1
    ∧ w'.kernel.startingPid = w.kernel.startingPid + 1
    ∧ ∀ s' ∈ w'.tree.alive, s' ∉ w.tree.alive → s' = s
  marks : ∀ s, w.kernel.Tended w.tree s → w.blocks e s = false → w.addresses e s = false →
    SameMark (w.kernel.task s) (w'.kernel.task s)
  /-- Who is given the CPU was ready. -/
  runs : w'.kernel.current = w.kernel.current ∨ (w.kernel.task w'.kernel.current).state = .ready
  /-- `sys_block` with something counted takes one off. -/
  taken : e = .block → (w.kernel.task w.kernel.current).pendingUnblocks ≠ 0 →
    w'.kernel.current = w.kernel.current
      ∧ (w'.kernel.task w.kernel.current).state = (w.kernel.task w.kernel.current).state
      ∧ (w'.kernel.task w.kernel.current).pendingUnblocks
        = (w.kernel.task w.kernel.current).pendingUnblocks - 1
  /-- Otherwise it marks the process as blocked. -/
  parked : e = .block → (w.kernel.task w.kernel.current).pendingUnblocks = 0 →
    (w'.kernel.task w.kernel.current).state = .blocked
      ∧ (w'.kernel.task w.kernel.current).pendingUnblocks = 0
      ∧ (w.kernel.Yields ↔ w'.kernel.current ≠ w.kernel.current)
  /-- `sys_unblock` wakes the child or counts the call. -/
  unblocked : ∀ s, w.addresses e s = true → w'.kernel.current = w.kernel.current
    ∧ ((w.kernel.task s).state = .blocked → (w'.kernel.task s).state = .ready
      ∧ (w'.kernel.task s).pendingUnblocks = (w.kernel.task s).pendingUnblocks
      ∧ ∃ l, Rings w'.kernel.links l ∧ s ∈ l .ready)
    ∧ ((w.kernel.task s).state ≠ .blocked →
      (w'.kernel.task s).state = (w.kernel.task s).state
      ∧ (w'.kernel.task s).pendingUnblocks = (w.kernel.task s).pendingUnblocks + 1)

theorem addresses_eq_false {e : Event} {s : Slot} (he : ∀ pid, e ≠ .unblock pid) :
    w.addresses e s = false := by
  cases e <;> first | rfl | exact absurd rfl (he _)

/-- An event that is neither call and makes no process. -/
theorem Turn.of_marks {e : Event} (he : e ≠ .block) (he' : ∀ pid, e ≠ .unblock pid)
    (htree : w'.tree = w.tree)
    (hpid : ∀ s ∈ w.tree.alive, (w'.kernel.task s).pid = (w.kernel.task s).pid)
    (hstart : w'.kernel.startingPid = w.kernel.startingPid)
    (hmarks : ∀ s, w.kernel.Tended w.tree s → SameMark (w.kernel.task s) (w'.kernel.task s))
    (hruns : w'.kernel.current = w.kernel.current
      ∨ (w.kernel.task w'.kernel.current).state = .ready) : Turn w e w' where
  alive s hs := by
    rw [htree]
    exact hs
  pid := hpid
  startingPid := le_of_eq hstart.symm
  born s hs hn := absurd (htree ▸ hs) hn
  marks s hs _ _ := hmarks s hs
  runs := hruns
  taken hb := absurd hb he
  parked hb := absurd hb he
  unblocked s hs := by
    rw [addresses_eq_false he'] at hs
    exact absurd hs nofun

/-- **The clock.** -/
theorem Sound.turn_tick (h : w.Sound) (hk : w.kernel.schedule = w'.kernel)
    (htree : w'.tree = w.tree) : Turn w .tick w' := by
  obtain ⟨l, hq⟩ := h.queued
  obtain ⟨hmarks, hstays, hyields⟩ := Kernel.schedule_turn hq
  obtain ⟨l', -, hres⟩ := Kernel.schedule_spec hq
  rw [hk] at hmarks hstays hyields hres
  refine Turn.of_marks Event.noConfusion (fun _ => Event.noConfusion) htree
    (fun s _ => hres.pid s) hres.startingPid (fun s _ => hmarks s) ?_
  by_cases hy : w.kernel.Yields
  · exact Or.inr (hyields hy).2
  · exact Or.inl (hstays hy)

theorem ne_current_of_blocks {s : Slot} (hs : w.blocks .block s = false) :
    s ≠ w.kernel.current :=
  of_decide_eq_false hs

/-- **`sys_block` with something counted** takes one off. -/
theorem Turn.of_take (hpend : (w.kernel.task w.kernel.current).pendingUnblocks ≠ 0)
    (hk : w.kernel.sysBlock = w'.kernel) (htree : w'.tree = w.tree) : Turn w .block w' := by
  rw [Kernel.sysBlock_of_counted hpend] at hk
  refine ⟨fun s hs => htree ▸ hs, fun s _ => ?_, ?_, fun s hs hn => absurd (htree ▸ hs) hn,
    fun s _ hs _ => SameMark.of_eq ?_, Or.inl ?_, fun _ _ => ?_,
    fun _ hzero => absurd hzero hpend, fun s hs => absurd hs Bool.false_ne_true⟩
  · rw [← hk, Kernel.modifyTask_apply]
    split_ifs with hs
    · rw [hs]
    · rfl
  · rw [← hk]
    exact le_rfl
  · rw [← hk, Kernel.modifyTask_apply, if_neg (ne_current_of_blocks hs)]
  · rw [← hk]
    rfl
  · rw [← hk, Kernel.modifyTask_apply, if_pos rfl]
    exact ⟨rfl, rfl, rfl⟩

/-- **`sys_block` with nothing counted** marks the process as blocked and calls
`schedule`. -/
theorem Sound.turn_park (h : w.Sound) (hi : w.kernel.current ≠ w.kernel.idleTask)
    (hrun : (w.kernel.task w.kernel.current).state ≠ .blocked)
    (hpend : (w.kernel.task w.kernel.current).pendingUnblocks = 0)
    (hk : w.kernel.sysBlock = w'.kernel) (htree : w'.tree = w.tree) : Turn w .block w' := by
  obtain ⟨l, hq⟩ := h.queued
  obtain ⟨-, -, hquiet⟩ := Kernel.sysBlock_spec hq hi
  obtain ⟨k₁, l₁, heq, hq₁, hready, htask, hcur, hticks, -⟩ := Kernel.sysBlock_eq hq hi hrun hpend
  obtain ⟨hmarks, hstays, hyields⟩ := Kernel.schedule_turn hq₁
  rw [hk] at hquiet
  rw [← heq, hk] at hmarks hstays hyields
  rw [hcur] at hstays hyields
  refine ⟨fun s hs => htree ▸ hs, fun s _ => hquiet.pid s, le_of_eq hquiet.startingPid.symm,
    fun s hs hn => absurd (htree ▸ hs) hn, fun s _ hs _ => ?_, ?_,
    fun _ hsome => absurd hpend hsome, fun _ _ => ?_, fun s hs => absurd hs Bool.false_ne_true⟩
  · have hmark := hmarks s
    rw [htask, Function.update_of_ne (ne_current_of_blocks hs)] at hmark
    exact hmark
  · by_cases hy : k₁.Yields
    · obtain ⟨hne, hnext⟩ := hyields hy
      rw [htask, Function.update_of_ne hne] at hnext
      exact Or.inr hnext
    · exact Or.inl (hstays hy)
  · have hmark := hmarks w.kernel.current
    rw [htask, Function.update_self] at hmark
    have hsame : w.kernel.Yields ↔ k₁.Yields := by
      unfold Kernel.Yields
      rw [hticks, ← Bool.not_eq_true, ← Bool.not_eq_true, Kernel.listEmpty_ready_iff hq.rings,
        Kernel.listEmpty_ready_iff hq₁.rings, hready]
    refine ⟨hmark.2.mpr rfl, hmark.1.trans hpend, ?_⟩
    rw [hsame]
    constructor
    · exact fun hy => (hyields hy).1
    · exact fun hne => by_contra fun hy => hne (hstays hy)

/-- **`sys_block`.** -/
theorem Sound.turn_block (h : w.Sound) (hi : w.kernel.current ≠ w.kernel.idleTask)
    (hrun : (w.kernel.task w.kernel.current).state ≠ .blocked)
    (hk : w.kernel.sysBlock = w'.kernel) (htree : w'.tree = w.tree) : Turn w .block w' := by
  by_cases hpend : (w.kernel.task w.kernel.current).pendingUnblocks = 0
  · exact h.turn_park hi hrun hpend hk htree
  · exact Turn.of_take hpend hk htree

/-- **`sys_unblock`.** -/
theorem Sound.turn_unblock (h : w.Sound) (hn : w.Named)
    (hi : w.kernel.current ≠ w.kernel.idleTask) {pid : ℤ}
    (hk : (w.kernel.sysUnblock pid).2 = w'.kernel) (htree : w'.tree = w.tree) :
    Turn w (.unblock pid) w' := by
  obtain ⟨l, hq⟩ := h.queued
  have hchild : ∀ c, w.kernel.findChild pid = some c →
      w.kernel.Tended w.tree c ∧ c ≠ w.kernel.idleTask ∧ c ≠ w.kernel.current := by
    intro c hc
    have hc' := h.findChild hi hc
    exact ⟨Or.inl hc'.1, h.alive_ne hc'.1, (h.guarded c hc'.1 _ hc'.2).1.symm⟩
  obtain ⟨-, -, hquiet⟩ := Kernel.sysUnblock_spec hq pid hchild
  rw [hk] at hquiet
  have hframe : (∀ s, w.addresses (.unblock pid) s = false →
        w'.kernel.task s = w.kernel.task s) ∧ w'.kernel.current = w.kernel.current := by
    cases hc : w.kernel.findChild pid with
    | none =>
      rw [Kernel.sysUnblock_stranger hc] at hk
      rw [← hk]
      exact ⟨fun _ _ => rfl, rfl⟩
    | some c =>
      obtain ⟨htended, hci, hcc⟩ := hchild c hc
      have hne : ∀ {s}, w.addresses (.unblock pid) s = false → s ≠ c := by
        intro s hs he
        rw [he, (h.findChild_iff hn hi).mp hc] at hs
        exact absurd hs nofun
      by_cases hstate : (w.kernel.task c).state = .blocked
      · obtain ⟨-, htask, hcur, -⟩ := Kernel.sysUnblock_wakes hq hc htended hci hcc hstate
        rw [hk] at htask hcur
        refine ⟨fun s hs => ?_, hcur⟩
        rw [htask, Function.update_of_ne (hne hs)]
      · obtain ⟨-, htask, hcur, -⟩ := Kernel.sysUnblock_counts hc hstate
        rw [hk] at htask hcur
        refine ⟨fun s hs => ?_, hcur⟩
        rw [htask, Function.update_of_ne (hne hs)]
  refine ⟨fun s hs => htree ▸ hs, fun s _ => hquiet.pid s, le_of_eq hquiet.startingPid.symm,
    fun s hs hn' => absurd (htree ▸ hs) hn',
    fun s _ _ hs => SameMark.of_eq (hframe.1 s hs), Or.inl hframe.2, Event.noConfusion, Event.noConfusion,
    fun s hs => ⟨hframe.2, fun hstate => ?_, fun hstate => ?_⟩⟩
  · have hc := (h.findChild_iff hn hi).mpr hs
    obtain ⟨htended, hci, hcc⟩ := hchild s hc
    obtain ⟨-, htask, -, hready, -⟩ := Kernel.sysUnblock_wakes hq hc htended hci hcc hstate
    rw [hk] at htask hready
    rw [htask, Function.update_self]
    exact ⟨rfl, rfl, hready⟩
  · obtain ⟨-, htask, -⟩ :=
      Kernel.sysUnblock_counts ((h.findChild_iff hn hi).mpr hs) hstate
    rw [hk] at htask
    rw [htask, Function.update_self]
    exact ⟨rfl, rfl⟩

/-- **`sys_fork`.** -/
theorem Sound.turn_fork (h : w.Sound) (hi : w.kernel.current ≠ w.kernel.idleTask)
    (hk : w.kernel.sysFork.2 = w'.kernel) (htree : w'.tree = w.grow .fork) :
    Turn w .fork w' := by
  obtain ⟨l, hq⟩ := h.queued
  cases hnext : w.kernel.nextFree with
  | none =>
    have hgrow : w.grow .fork = w.tree := by simp only [grow, hnext]
    rw [Kernel.sysFork_none hq.rings hnext] at hk
    rw [hgrow] at htree
    refine Turn.of_marks Event.noConfusion (fun _ => Event.noConfusion) htree (fun s _ => ?_) ?_
      (fun s _ => ?_) (Or.inl ?_)
    · rw [← hk]
    · rw [← hk]
    · rw [← hk]
      exact SameMark.of_eq rfl
    · rw [← hk]
  | some c =>
    obtain ⟨hcur, -, htask, hchild, hpid⟩ :=
      Kernel.sysFork_frame hq hnext (h.tabled.kernel _ le_rfl)
    rw [hk] at hcur htask hchild hpid
    have hdead := (h.free_dead hnext).1
    have hne : ∀ s ∈ w.tree.alive, s ≠ c := fun s hs he => hdead (he ▸ hs)
    have hsame : ∀ s ∈ w.tree.alive, w'.kernel.task s = w.kernel.task s :=
      fun s hs => htask s (hne s hs)
    have hmarks : ∀ s, w.kernel.Tended w.tree s →
        SameMark (w.kernel.task s) (w'.kernel.task s) := by
      rintro s (hs | rfl)
      · exact SameMark.of_eq (hsame s hs)
      · exact SameMark.of_eq (htask _ (h.free_dead hnext).2.1.symm)
    have hfork := Kernel.sysFork_some hq hnext (h.tabled.kernel _ le_rfl)
    by_cases hlen : numPagData ≤ (freeFrames w.kernel.mm.physMem).length
    · obtain ⟨hstruct, hstart⟩ := hchild hlen
      have hpos : 0 < w.kernel.sysFork.1 := by
        rw [hfork, if_pos hlen]
        exact Int.lt_add_one_of_le (le_trans (by decide) h.startingPid)
      have hgrow : w.grow .fork = w.tree.fork w.kernel.current c := by
        simp only [grow, hnext, if_pos hpos]
      rw [hgrow] at htree
      have hborn : ∀ s ∈ w'.tree.alive, s ∉ w.tree.alive → s = c := by
        intro s hs hn
        rw [htree] at hs
        exact (Tree.mem_fork.mp hs).resolve_right hn
      refine ⟨fun s hs => ?_, fun s hs => by rw [hsame s hs], ?_, fun s hs hn => ?_,
        fun s hs _ _ => hmarks s hs, Or.inl hcur, Event.noConfusion,
        Event.noConfusion, fun s hs => absurd hs Bool.false_ne_true⟩
      · rw [htree]
        exact Tree.mem_fork.mpr (Or.inr hs)
      · rw [hstart]
        exact Int.le_add_one le_rfl
      · obtain rfl := hborn s hs hn
        have hcs : w'.kernel.current ≠ s :=
          fun he => hdead (he ▸ hcur ▸ h.current_alive hi)
        rw [hstruct]
        exact ⟨rfl, rfl, hcs, rfl, hstart, hborn⟩
    · have hneg : ¬ 0 < w.kernel.sysFork.1 := by
        rw [hfork, if_neg hlen]
        exact Int.not_lt.mpr (by decide : -eAGAIN ≤ 0)
      have hgrow : w.grow .fork = w.tree := by simp only [grow, hnext, if_neg hneg]
      rw [hgrow] at htree
      exact Turn.of_marks Event.noConfusion (fun _ => Event.noConfusion) htree
        (fun s hs => by rw [hsame s hs]) (hpid hlen) hmarks (Or.inl hcur)

/-- **One event** that is no exit, the process that runs not being marked as
blocked. -/
theorem Sound.turn (h : w.Sound) (hn : w.Named)
    (hrun : (w.kernel.task w.kernel.current).state ≠ .blocked) {e : Event} (he : e ≠ .exit)
    (hst : w.step e = some w') : Turn w e w' := by
  obtain ⟨hk, htree⟩ := step_eq_some_iff.mp hst
  obtain ⟨hen, hperf, -, -⟩ := kernelStep_eq_some_iff.mp hk
  cases e with
  | tick => exact h.turn_tick (Option.some_inj.mp hperf) htree
  | fork => exact h.turn_fork (hen rfl) (Option.some_inj.mp hperf) htree
  | exit => exact absurd rfl he
  | block => exact h.turn_block (hen rfl) hrun (Option.some_inj.mp hperf) htree
  | unblock pid => exact h.turn_unblock hn (hen rfl) (Option.some_inj.mp hperf) htree
  | store addr b =>
    have hstore : w.kernel.userStore addr b = some w'.kernel := hperf
    rw [Kernel.userStore] at hstore
    split_ifs at hstore
    obtain ⟨loc, -, hk'⟩ := Option.map_eq_some_iff.mp hstore
    refine Turn.of_marks Event.noConfusion (fun _ => Event.noConfusion) htree (fun s _ => ?_) ?_
      (fun s _ => ?_) (Or.inl ?_)
    · rw [← hk']
    · rw [← hk']
    · rw [← hk']
      exact SameMark.of_eq rfl
    · rw [← hk']

/-- The identifiers stay different. -/
theorem Named.turn (hn : w.Named) {e : Event} (h : Turn w e w') : w'.Named := by
  have hnew : ∀ s ∈ w'.tree.alive, s ∉ w.tree.alive → ∀ s' ∈ w.tree.alive,
      (w'.kernel.task s).pid ≠ (w'.kernel.task s').pid := by
    intro s hs hns s' hs' he
    obtain ⟨-, -, -, hpid, -⟩ := h.born s hs hns
    have hle := hn.le s' hs'
    rw [hpid, h.pid s' hs'] at he
    omega
  refine ⟨fun s hs => ?_, fun s hs s' hs' he => ?_⟩
  · by_cases hold : s ∈ w.tree.alive
    · rw [h.pid s hold]
      exact (hn.le s hold).trans h.startingPid
    · obtain ⟨-, -, -, hpid, hstart, -⟩ := h.born s hs hold
      rw [hpid, hstart]
  · by_cases hold : s ∈ w.tree.alive
    · by_cases hold' : s' ∈ w.tree.alive
      · rw [h.pid s hold, h.pid s' hold'] at he
        exact hn.inj s hold s' hold' he
      · exact absurd he.symm (hnew s' hs' hold' s hold)
    · by_cases hold' : s' ∈ w.tree.alive
      · exact absurd he (hnew s hs hold s' hold')
      · obtain ⟨-, -, -, -, -, hone⟩ := h.born s' hs' hold'
        exact hone s hs hold

/-- The names after boot. -/
theorem named_boot (ram : Location → Byte) : (boot ram).Named := by
  obtain ⟨htree, -, -, -, -, hstart, htask, -⟩ := boot_frame ram
  refine ⟨fun s hs => ?_, fun s hs s' hs' _ => ?_⟩
  · rw [htree, Finset.mem_singleton] at hs
    rw [hs, hstart, htask]
    decide
  · rw [htree, Finset.mem_singleton] at hs hs'
    exact hs.trans hs'.symm

end World

end ZeOS.Zeos
