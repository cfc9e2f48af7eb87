import ZeOS.Zeos.Boot

/-!
# Whose turn it is

What the events do to the task structs and to who runs, whatever the queues
are: `schedule` passes the CPU on to the first ready task when the quantum is
over and somebody is ready, and otherwise returns to the task that called it.
The clock calls it and `sys_block` calls it, so a process that blocks goes on
running in the middle of its quantum, marked as blocked.
-/

namespace ZeOS.Zeos

open Practica (freeFrames)

namespace Kernel

variable {k : Kernel} {t : Tree} {l : Queue → List Slot} {c : Slot}

/-! ## The scheduler -/

/-- **A call of `schedule` passes the CPU on**: the quantum is over and a task
is ready. -/
def Yields (k : Kernel) : Prop :=
  k.ticksSinceCpu ≤ 1 ∧ listEmpty k.links .readyqueue = false

instance : DecidablePred Yields := fun _ => inferInstanceAs (Decidable (_ ∧ _))

/-- The structs once the task that ran has been put back. -/
def putBack (k : Kernel) : Slot → TaskStruct :=
  if (k.task k.current).state = .blocked then k.task
  else Function.update k.task k.current { k.task k.current with state := .ready }

theorem listEmpty_ready_iff (hr : Rings k.links l) :
    listEmpty k.links .readyqueue = true ↔ l .ready = [] := by
  have hnil := listEmpty_iff (hr.ring .ready)
  rwa [List.map_eq_nil_iff] at hnil

theorem exists_ready (hr : Rings k.links l) (hy : k.Yields) : ∃ c cs, l .ready = c :: cs := by
  have hne : l .ready ≠ [] := fun hnil => by
    have hempty := (listEmpty_ready_iff hr).mpr hnil
    rw [hy.2] at hempty
    exact Bool.noConfusion hempty
  exact List.exists_cons_of_ne_nil hne

/-- `schedule` returns to the task that called it. -/
theorem schedule_stays (hn : ¬ k.Yields) :
    ∃ n, k.schedule = { k with ticksSinceCpu := n } := by
  rw [schedule_eq]
  split_ifs with hpos hempty
  · exact ⟨_, rfl⟩
  · exact ⟨_, rfl⟩
  · exact absurd ⟨by omega, Bool.eq_false_iff.mpr hempty⟩ hn

/-- **`schedule` passes the CPU on** to the first ready task, and the task that
ran waits behind the others unless it is marked as blocked. -/
theorem schedule_yields (hq : k.Queued t l) (hy : k.Yields) {cs : List Slot}
    (hl : l .ready = c :: cs) :
    ∃ h', k.schedule
        = ({ k with
            links := h'
            task := k.putBack
            ticksSinceCpu := k.ticksSinceCpu - 1 } : Kernel).dispatch c
      ∧ ∃ l', Rings h' l'
        ∧ l' .ready = if (k.task k.current).state = .blocked then cs else cs ++ [k.current] := by
  have hpos : ¬ 0 < k.ticksSinceCpu - 1 := by
    have := hy.1
    omega
  rw [schedule_eq, if_neg hpos, if_neg (by rw [hy.2]; exact nofun)]
  set k₁ : Kernel := { k with ticksSinceCpu := k.ticksSinceCpu - 1 } with hk₁
  have hr₁ : Rings k₁.links l := hq.rings
  unfold putBack
  by_cases hblocked : (k.task k.current).state = .blocked
  · have hsame : k₁.updateProcessStateRr k.current (some .readyqueue) = k₁ :=
      if_neg (not_not.mpr hblocked)
    obtain ⟨h', hunlink, hr', -⟩ := unlink_eq hr₁ (show l .ready = [] ++ c :: cs from hl)
    rw [hsame, schedNextRr_cons hr₁ hl, hunlink, if_pos hblocked, if_pos hblocked]
    exact ⟨h', rfl, _, hr', Function.update_self ..⟩
  · have hout := hq.out hblocked
    obtain ⟨h₁, hadd, hr₂, -⟩ := linkTail_eq hr₁ .ready hout
    set k₂ : Kernel := { k₁ with
      links := h₁
      task := Function.update k.task k.current { k.task k.current with state := .ready } } with hk₂
    have hput : k₁.updateProcessStateRr k.current (some .readyqueue) = k₂ := by
      have hrun : (k₁.task k.current).state = .run := hq.current_state (hout .blocked)
      have hadd' : k₁.linkTail (.task k.current) .readyqueue = { k₁ with links := h₁ } := hadd
      rw [updateProcessStateRr, if_pos (show (k₁.task k₁.current).state ≠ .blocked from hblocked),
        if_neg (not_not.mpr hrun)]
      simp only [if_pos, hadd']
      rfl
    have hready : Function.update l .ready (l .ready ++ [k.current]) .ready
        = [] ++ c :: (cs ++ [k.current]) := by
      rw [Function.update_self, hl]
      rfl
    have hr₃ : Rings k₂.links (Function.update l .ready (l .ready ++ [k.current])) := hr₂
    obtain ⟨h', hunlink, hr', -⟩ := unlink_eq hr₃ hready
    rw [hput, schedNextRr_cons hr₃ hready, hunlink, if_neg hblocked, if_neg hblocked]
    exact ⟨h', rfl, _, hr', Function.update_self ..⟩

/-! ## The calls -/

/-- **`sys_block` of a process that is in no queue**, with nothing counted: it
is in `blocked` when `schedule` is called, and the zeros stored through the
null pointers of its node go where page 0 is mapped. -/
theorem sysBlock_eq (hq : k.Queued t l) (hidle : k.current ≠ k.idleTask)
    (hrun : (k.task k.current).state ≠ .blocked)
    (hpend : (k.task k.current).pendingUnblocks = 0) :
    ∃ (k₁ : Kernel) (l₁ : Queue → List Slot), k.sysBlock = k₁.schedule ∧ k₁.Queued t l₁
      ∧ l₁ .ready = l .ready
      ∧ k₁.task = Function.update k.task k.current { k.task k.current with state := .blocked }
      ∧ k₁.current = k.current ∧ k₁.ticksSinceCpu = k.ticksSinceCpu
      ∧ k₁.mm.stuck = k.mm.stuck
      ∧ ∀ o, k.mm.translate k.cr3 0 = some (0, o) → k₁.stuck = k.stuck := by
  have hsettled := hq.settled k.current
  have hout := hq.out hrun
  set k₁ := k.modifyTask k.current (fun c => { c with state := .blocked }) with hk₁
  have hnone : k₁.links (.task k.current) = ⟨none, none⟩ := hsettled.unlinked hq.current_tended hout
  have hdel : listDel k₁.links (.task k.current) = none := by rw [listDel, hnone]
  set k₂ : Kernel :=
    { k₁ with unlinkedDel := k₁.unlinkedDel || !listLinked k₁.links (.task k.current) } with hk₂
  have hunlink : k₁.unlink (.task k.current) = k₂.storeNull := by
    rw [Kernel.unlink]
    simp only [hdel, if_pos hnone, ← hk₂]
  obtain ⟨hlinks, htask, hcurrent, hcr3⟩ := storeNull_frame k₂
  have hquiet := quiet_storeNull k₂
  have hw : k₂.storeNull.WaitingBut t l k.current :=
    (hq.toWaiting.but k.current).congr hlinks hquiet.idleTask (fun u hu => by
      rw [htask]
      exact Function.update_of_ne hu _ k.task) (fun _ _ => Iff.rfl)
  have hstruct : k₂.storeNull.task k.current
      = { k.task k.current with state := .blocked } := by
    rw [htask]
    exact Function.update_self k.current _ k.task
  obtain ⟨h', l', hadd, hq', hready⟩ := hw.park hcurrent hout
    ((Tended.congr hquiet.idleTask Iff.rfl).mpr hq.current_tended)
    (fun he => hidle (he.trans hquiet.idleTask)) (congrArg TaskStruct.state hstruct)
    ((congrArg TaskStruct.dirPagesBaseAddr hstruct).trans (hsettled.dir hq.current_tended))
    (hcr3.trans hq.cr3)
  refine ⟨{ k₂.storeNull with links := h' }, l', ?_, hq', hready, ?_, hcurrent, ?_, ?_, ?_⟩
  · rw [Kernel.sysBlock]
    dsimp only
    rw [if_pos hpend, ← hk₁, hunlink, hadd]
  · exact htask
  · show k₂.storeNull.ticksSinceCpu = _
    unfold storeNull
    cases k₂.mm.translate k₂.cr3 0 <;> rfl
  · show k₂.storeNull.mm.stuck = _
    unfold storeNull
    cases k₂.mm.translate k₂.cr3 0 <;> rfl
  · intro o ho
    show k₂.storeNull.stuck = _
    have hloc : k₂.mm.translate k₂.cr3 0 = some (0, o) := ho
    rw [storeNull, hloc]
    exact Bool.or_false _

/-- `sys_unblock` of no child. -/
theorem sysUnblock_stranger {pid : ℤ} (hc : k.findChild pid = none) :
    k.sysUnblock pid = (some (-1), k) := by
  unfold sysUnblock
  rw [hc]

/-- `sys_unblock` of a child that is blocked. -/
theorem sysUnblock_wakes (hq : k.Queued t l) {pid : ℤ} (hc : k.findChild pid = some c)
    (htended : k.Tended t c) (hidle : c ≠ k.idleTask) (hcurrent : c ≠ k.current)
    (hstate : (k.task c).state = .blocked) :
    (k.sysUnblock pid).1 = some 0
      ∧ (k.sysUnblock pid).2.task = Function.update k.task c { k.task c with state := .ready }
      ∧ (k.sysUnblock pid).2.current = k.current
      ∧ (∃ l', Rings (k.sysUnblock pid).2.links l' ∧ c ∈ l' .ready)
      ∧ (k.sysUnblock pid).2.mm = k.mm ∧ (k.sysUnblock pid).2.stuck = k.stuck := by
  obtain ⟨h', l', heq, hq', hready⟩ := wake_spec hq htended hidle hcurrent hstate
  have hcall : k.sysUnblock pid
      = (some 0, { k.modifyTask c (fun u => { u with state := .ready }) with links := h' }) := by
    unfold sysUnblock
    rw [hc]
    dsimp only
    rw [if_pos hstate, heq]
  rw [hcall]
  exact ⟨rfl, rfl, rfl, ⟨l', hq'.rings, hready⟩, rfl, rfl⟩

/-- `sys_unblock` of a child that is not. -/
theorem sysUnblock_counts {pid : ℤ} (hc : k.findChild pid = some c)
    (hstate : (k.task c).state ≠ .blocked) :
    (k.sysUnblock pid).1 = none
      ∧ (k.sysUnblock pid).2.task = Function.update k.task c
        { k.task c with pendingUnblocks := (k.task c).pendingUnblocks + 1 }
      ∧ (k.sysUnblock pid).2.current = k.current
      ∧ (k.sysUnblock pid).2.links = k.links
      ∧ (k.sysUnblock pid).2.ticksSinceCpu = k.ticksSinceCpu
      ∧ (k.sysUnblock pid).2.mm = k.mm
      ∧ (k.sysUnblock pid).2.stuck
        = (k.stuck || decide ((k.task c).pendingUnblocks = intMax)) := by
  have hcall : k.sysUnblock pid
      = (none, ({ k with
          stuck := k.stuck || decide ((k.task c).pendingUnblocks = intMax) } : Kernel).modifyTask c
          (fun u => { u with pendingUnblocks := u.pendingUnblocks + 1 })) := by
    unfold sysUnblock
    rw [hc]
    dsimp only
    rw [if_neg hstate]
  rw [hcall]
  exact ⟨rfl, rfl, rfl, rfl, rfl, rfl, rfl⟩

/-- **`sys_fork` touches no struct** but that of the slot it takes. -/
theorem sysFork_frame (hq : k.Queued t l) (hnext : k.nextFree = some c)
    (hfirst : k.mm.physMem numPagKernel ≠ 0) :
    k.sysFork.2.current = k.current ∧ k.sysFork.2.ticksSinceCpu = k.ticksSinceCpu
      ∧ (∀ s, s ≠ c → k.sysFork.2.task s = k.task s)
      ∧ (numPagData ≤ (freeFrames k.mm.physMem).length →
        k.sysFork.2.task c = k.childStruct c ∧ k.sysFork.2.startingPid = k.startingPid + 1)
      ∧ (¬ numPagData ≤ (freeFrames k.mm.physMem).length →
        k.sysFork.2.startingPid = k.startingPid) := by
  obtain ⟨h', l', hres, -, -, -⟩ := reserve_spec hq (mem_free_of_nextFree hq.rings hnext)
  have htask : (k.reserve c).task
      = Function.update k.task c { k.task k.current with dirPagesBaseAddr := c } := by rw [hres]
  have hcur : (k.reserve c).current = k.current := by rw [hres]
  have hticks : (k.reserve c).ticksSinceCpu = k.ticksSinceCpu := by rw [hres]
  have hpid : (k.reserve c).startingPid = k.startingPid := by rw [hres]
  rw [sysFork_some hq hnext hfirst]
  by_cases hlen : numPagData ≤ (freeFrames k.mm.physMem).length
  · rw [if_pos hlen]
    dsimp only
    generalize forkedMm k.mm k.current c = m
    obtain ⟨htask', hcur', hticks', hpid'⟩ :=
      startChild_frame (({ k.reserve c with mm := m } : Kernel).setCr3 k.current) c
    refine ⟨hcur'.trans hcur, hticks'.trans hticks, fun s hs => ?_,
      fun _ => ⟨?_, hpid'.trans (congrArg (· + 1) hpid)⟩, fun hlt => absurd hlen hlt⟩
    · rw [htask', Function.update_of_ne hs]
      show (k.reserve c).task s = _
      rw [htask, Function.update_of_ne hs]
    · rw [htask', Function.update_self]
      show ({ (k.reserve c).task c with
        pid := (k.reserve c).startingPid + 1, state := .ready,
        pParent := some (k.reserve c).current, pendingUnblocks := 0 } : TaskStruct) = _
      rw [htask, hcur, hpid, Function.update_self]
      rfl
  · rw [if_neg hlen]
    obtain ⟨htask', hcur', hticks', hpid'⟩ := linkTail_frame (k.reserve c) (.task c) .freequeue
    refine ⟨hcur'.trans hcur, hticks'.trans hticks, fun s hs => ?_, fun hge => absurd hge hlen,
      fun _ => hpid'.trans hpid⟩
    rw [htask', htask, Function.update_of_ne hs]

end Kernel

/-! ## A process that blocks in the middle of its quantum -/

namespace World

variable {w w' : World}

/-- The clock can always tick. -/
theorem Sound.step_tick (h : w.Sound) (hstuck : w.kernel.stuck = false)
    (hmstuck : w.kernel.mm.stuck = false) :
    w.step .tick = some ⟨w.kernel.schedule, w.tree⟩ := by
  obtain ⟨l, hq⟩ := h.queued
  obtain ⟨-, -, hres⟩ := Kernel.schedule_spec hq
  exact step_eq_some_iff.mpr ⟨kernelStep_eq_some_iff.mpr ⟨fun hby => Bool.noConfusion hby, rfl,
    by rw [hres.mm, hmstuck], by rw [hres.stuck, hstuck]⟩, rfl⟩

/-- **The quantum of a process passes** with the clock, up to its last tick. -/
theorem Sound.run_ticks (h : w.Sound) (hstuck : w.kernel.stuck = false)
    (hmstuck : w.kernel.mm.stuck = false) {n : ℕ} (hn : w.kernel.ticksSinceCpu = n + 1) :
    Run World.step (fun _ _ => True) w (List.replicate n .tick)
      ⟨{ w.kernel with ticksSinceCpu := 1 }, w.tree⟩ := by
  induction n generalizing w with
  | zero =>
    have hone : w.kernel.ticksSinceCpu = 1 := hn
    rw [← hone]
    exact Run.nil w
  | succ n ih =>
    have hst := h.step_tick hstuck hmstuck
    have hpos : 0 < w.kernel.ticksSinceCpu - 1 := by omega
    rw [Kernel.schedule_eq, if_pos hpos] at hst
    have hrest := ih (h.step hst).1 hstuck hmstuck
      (show w.kernel.ticksSinceCpu - 1 = n + 1 by omega)
    exact (Run.single (P := fun _ _ => True) trivial hst).append hrest

theorem Sound.of_run (h : w.Sound) {es : List Event}
    (hrun : Run World.step (fun _ _ => True) w es w') : w'.Sound :=
  hrun.invariant (fun _ _ _ hs _ hst => (hs.step hst).1) h

/-- Page 0 of the first child is mapped to frame 0. -/
theorem translate_fork_boot (ram : Location → Byte) :
    (forkedMm (boot ram).kernel.mm 8 7).translate 7 0 = some (0, 0) := by
  obtain ⟨htree, -⟩ := boot_frame ram
  have halive : (8 : Slot) ∈ (boot ram).tree.alive := by
    rw [htree]
    exact Finset.mem_singleton_self 8
  have hlen : numPagData ≤ (freeFrames (boot ram).kernel.mm.physMem).length := by
    rw [length_freeFrames_boot]
    decide
  have hpt := ((tabled_boot ram).forkedMm_eq halive (show (8 : Slot) ≠ 7 by decide) hlen).1 7
  have hzero : (forkedMm (boot ram).kernel.mm 8 7).pagusrTable 7 0
      = (Practica.PageTableEntry.zero).opened := by
    rw [hpt, if_pos rfl, boot_table]
    rfl
  have hframe : getFrame ((forkedMm (boot ram).kernel.mm 8 7).pagusrTable 7) 0 = 0 := by
    rw [getFrame, hzero]
    rfl
  have hpresent : ((forkedMm (boot ram).kernel.mm 8 7).pagusrTable 7 0).present = true := by
    rw [hzero]
    rfl
  generalize forkedMm (boot ram).kernel.mm 8 7 = m at hframe hpresent ⊢
  show (if 0 < totalPages ∧ (m.pagusrTable 7 0).present = true then
    some (getFrame (m.pagusrTable 7) 0, 0) else none) = _
  rw [if_pos ⟨by decide, hpresent⟩, hframe]

/-- **The initial process forks**: the quantum is over and the child is the
first ready task. -/
theorem exists_fork_yields (ram : Location → Byte) :
    ∃ w l, (boot ram).step .fork = some w ∧ w.kernel.Queued w.tree l ∧ l .ready = [7]
      ∧ w.kernel.Yields ∧ w.kernel.putBack 7 = (boot ram).kernel.childStruct 7
      ∧ w.kernel.current = 8 ∧ (w.kernel.task 8).state = .run
      ∧ w.kernel.task 7 = (boot ram).kernel.childStruct 7
      ∧ w.tree = (⟨{8}, fun _ => none⟩ : Tree).fork 8 7
      ∧ w.kernel.idleTask = 9 ∧ w.kernel.stuck = false ∧ w.kernel.mm.stuck = false
      ∧ w.kernel.mm = forkedMm (boot ram).kernel.mm 8 7 := by
  obtain ⟨htree₀, hcur₀, -, -, -, -, htask₀, -, hnext₀⟩ := boot_frame ram
  obtain ⟨w, hst, -, htree, hmm, hidle, hstuck, hmstuck, hsp⟩ := exists_fork_boot ram
  obtain ⟨l, hq, hmem, hrest⟩ := hsp.queued
  have hlen : numPagData ≤ (freeFrames (boot ram).kernel.mm.physMem).length := by
    rw [length_freeFrames_boot]
    decide
  -- what the fork has left
  obtain ⟨-, hticks, hothers, hchild, -⟩ := Kernel.sysFork_frame (queued_boot ram) hnext₀
    ((tabled_boot ram).kernel _ le_rfl)
  have hk : (boot ram).kernel.sysFork.2 = w.kernel :=
    Option.some_inj.mp (kernelStep_eq_some_iff.mp (step_eq_some_iff.mp hst).1).2.1
  have hticks₀ : (boot ram).kernel.ticksSinceCpu = 0 := by
    obtain ⟨h', heq, -⟩ := Kernel.boot_eq ram
    exact congrArg Kernel.ticksSinceCpu heq
  replace hchild := (hchild hlen).1
  rw [hk] at hticks hchild hothers
  have hne : listEmpty w.kernel.links .readyqueue = false :=
    Bool.eq_false_iff.mpr (fun he =>
      List.ne_nil_of_mem hmem ((Kernel.listEmpty_ready_iff hq.rings).mp he))
  have hyields : w.kernel.Yields := ⟨by rw [hticks, hticks₀]; decide, hne⟩
  -- the child is the only ready task
  have hready : l .ready = [7] := by
    refine List.perm_singleton.mp ((List.perm_ext_iff_of_nodup (hq.rings.nodup .ready)
      (List.nodup_singleton 7)).mpr fun c => ⟨fun hin => ?_, fun hc => ?_⟩)
    · by_contra hc
      exact absurd ((hrest c (fun he => hc (List.mem_singleton.mpr he)) .ready).mp hin)
        List.not_mem_nil
    · rwa [List.mem_singleton.mp hc]
  have hput : w.kernel.putBack 7 = (boot ram).kernel.childStruct 7 := by
    unfold Kernel.putBack
    split_ifs
    · exact hchild
    · rw [hsp.current.trans hcur₀, Function.update_of_ne (by decide)]
      exact hchild
  have hrun : (w.kernel.task 8).state = .run := by
    rw [hothers 8 (by decide), htask₀]
    rfl
  exact ⟨w, l, hst, hq, hready, hyields, hput, hsp.current.trans hcur₀, hrun, hchild,
    htree₀ ▸ htree, hidle, hstuck, hmstuck, hmm⟩

/-- **The initial process forks and the clock runs the child.** -/
theorem exists_turn (ram : Location → Byte) :
    ∃ w l, Run World.step (fun _ _ => True) (boot ram) [.fork, .tick] w ∧ w.Sound
      ∧ w.kernel.Queued w.tree l ∧ l .ready = [8] ∧ w.kernel.current = 7 ∧ w.kernel.idleTask = 9
      ∧ (w.kernel.task 7).state = .run ∧ (w.kernel.task 7).pendingUnblocks = 0
      ∧ w.kernel.ticksSinceCpu = quantum ∧ w.kernel.stuck = false ∧ w.kernel.mm.stuck = false
      ∧ w.kernel.mm.translate w.kernel.cr3 0 = some (0, 0)
      ∧ w.tree = (⟨{8}, fun _ => none⟩ : Tree).fork 8 7 := by
  obtain ⟨-, hcur₀, -, -, -, -, htask₀, -⟩ := boot_frame ram
  obtain ⟨w₁, l₁, hst₁, hq₁, hready₁, hyields, hput, hcur₁, hrun₁, -, htree₁, hidle₁, hstuck₁,
    hmstuck₁, hmm₁⟩ := exists_fork_yields ram
  have h₁ := ((sound_boot ram).1.step hst₁).1
  obtain ⟨h', hsched, l', hr', hl'⟩ := Kernel.schedule_yields hq₁ hyields hready₁
  obtain ⟨-, -, hres⟩ := Kernel.schedule_spec hq₁
  have hst₂ := h₁.step_tick hstuck₁ hmstuck₁
  have h₂ := (h₁.step hst₂).1
  obtain ⟨l₂, hq₂⟩ := h₂.queued
  have hrun : Run World.step (fun _ _ => True) (boot ram) ([.fork] ++ [.tick])
      ⟨w₁.kernel.schedule, w₁.tree⟩ := (Run.single trivial hst₁).snoc trivial hst₂
  have hcur₂ : w₁.kernel.schedule.current = 7 := by rw [hsched]; rfl
  have htask₂ : w₁.kernel.schedule.task 7
      = { (boot ram).kernel.childStruct 7 with state := .run } := by
    rw [hsched, Kernel.dispatch_task, if_pos rfl]
    show ({ w₁.kernel.putBack 7 with state := .run } : TaskStruct) = _
    rw [hput]
  have hlinks₂ : w₁.kernel.schedule.links = h' := by rw [hsched]; rfl
  have hready₂ : l₂ .ready = [8] := by
    rw [hq₂.rings.unique (hlinks₂ ▸ hr'), hl', if_neg (by rw [hcur₁, hrun₁]; exact nofun), hcur₁]
    rfl
  refine ⟨_, l₂, hrun, h₂, hq₂, hready₂, hcur₂, hres.idleTask.trans hidle₁, ?_, ?_, ?_,
    hres.stuck.trans hstuck₁, (congrArg _ hres.mm).trans hmstuck₁, ?_, htree₁⟩
  · exact congrArg TaskStruct.state htask₂
  · exact congrArg TaskStruct.pendingUnblocks htask₂
  · have hticks₂ : w₁.kernel.schedule.ticksSinceCpu = (w₁.kernel.schedule.task 7).quantum := by
      rw [hsched]
      rfl
    refine hticks₂.trans ((congrArg TaskStruct.quantum htask₂).trans ?_)
    show ((boot ram).kernel.task (boot ram).kernel.current).quantum = _
    rw [hcur₀, htask₀]
    rfl
  · show w₁.kernel.schedule.mm.translate w₁.kernel.schedule.cr3 0 = _
    rw [hres.mm, show w₁.kernel.schedule.cr3 = 7 from hq₂.cr3.trans hcur₂, hmm₁]
    exact translate_fork_boot ram

/-- **The child calls `sys_block` at once**, with nothing counted: its node is
in no queue, and it goes on running. -/
theorem exists_block_returns (ram : Location → Byte) :
    ∃ u w, Run World.step (fun _ _ => True) (boot ram) [.fork, .tick] u
      ∧ u.step .block = some w ∧ (u.kernel.task u.kernel.current).pendingUnblocks = 0
      ∧ w.kernel.current = u.kernel.current := by
  obtain ⟨u, l, hrun, h, hq, -, hcur, hidle, hstate, hpend, hticks, hstuck, hmstuck, hpage, -⟩ :=
    exists_turn ram
  rw [← hcur] at hstate hpend
  have hi : u.kernel.current ≠ u.kernel.idleTask := by
    rw [hcur, hidle]
    decide
  have hnb : (u.kernel.task u.kernel.current).state ≠ .blocked := by
    rw [hstate]
    exact nofun
  obtain ⟨k₁, l₁, heq, -, -, -, hcur₁, hticks₁, hmstuck₁, hstuck₁⟩ :=
    Kernel.sysBlock_eq hq hi hnb hpend
  have hstays : ¬ k₁.Yields := by
    intro hy
    have hle := hy.1
    rw [hticks₁, hticks] at hle
    exact absurd hle (by decide)
  obtain ⟨n, hsched⟩ := Kernel.schedule_stays hstays
  rw [hsched] at heq
  refine ⟨u, ⟨u.kernel.sysBlock, u.tree⟩, hrun, ?_, hpend, ?_⟩
  · refine step_eq_some_iff.mpr ⟨kernelStep_eq_some_iff.mpr ⟨fun _ => hi, rfl, ?_, ?_⟩, rfl⟩
    · show u.kernel.sysBlock.mm.stuck = false
      rw [heq]
      exact hmstuck₁.trans hmstuck
    · show u.kernel.sysBlock.stuck = false
      rw [heq]
      exact (hstuck₁ 0 hpage).trans hstuck
  · show u.kernel.sysBlock.current = _
    rw [heq]
    exact hcur₁

/-- `sys_unblock` is taken where every child is blocked. -/
theorem Sound.exists_unblock (h : w.Sound) (hi : w.kernel.current ≠ w.kernel.idleTask)
    (hstuck : w.kernel.stuck = false) (hmstuck : w.kernel.mm.stuck = false) (pid : ℤ)
    (hblocked : ∀ c, w.tree.Child w.kernel.current c → (w.kernel.task c).state = .blocked) :
    ∃ w', w.step (.unblock pid) = some w' := by
  obtain ⟨l, hq⟩ := h.queued
  have hsame : (w.kernel.sysUnblock pid).2.mm = w.kernel.mm
      ∧ (w.kernel.sysUnblock pid).2.stuck = w.kernel.stuck := by
    cases hc : w.kernel.findChild pid with
    | none =>
      rw [Kernel.sysUnblock_stranger hc]
      exact ⟨rfl, rfl⟩
    | some c =>
      have hchild := h.findChild hi hc
      exact (Kernel.sysUnblock_wakes hq hc (Or.inl hchild.1) (h.alive_ne hchild.1)
        (h.guarded c hchild.1 _ hchild.2).1.symm (hblocked c hchild)).2.2.2.2
  exact ⟨⟨(w.kernel.sysUnblock pid).2, w.tree⟩, step_eq_some_iff.mpr
    ⟨kernelStep_eq_some_iff.mpr ⟨fun _ => hi, rfl, by rw [hsame.1, hmstuck], hsame.2.trans hstuck⟩,
      rfl⟩⟩

/-- **The child calls `sys_block` with the last tick of its quantum**, with
nothing counted: the call passes the CPU back to its parent. -/
theorem exists_block_yields (ram : Location → Byte) :
    ∃ u w, Run World.step (fun _ _ => True) (boot ram) ([.fork, .tick] ++ List.replicate 9 .tick) u
      ∧ u.step .block = some w ∧ u.kernel.Yields ∧ w.Sound ∧ w.kernel.current = 8
      ∧ w.kernel.idleTask = 9 ∧ (w.kernel.task 7).state = .blocked
      ∧ w.tree = (⟨{8}, fun _ => none⟩ : Tree).fork 8 7 ∧ w.kernel.stuck = false
      ∧ w.kernel.mm.stuck = false := by
  obtain ⟨v, l, hrun, h, hq, hready, hcur, hidle, hstate, hpend, hticks, hstuck, hmstuck, hpage,
    htree⟩ := exists_turn ram
  have hrun' := hrun.append (h.run_ticks hstuck hmstuck (n := 9) hticks)
  -- at the last tick nothing else is different
  obtain ⟨l₁, hq₁⟩ := ((sound_boot ram).1.of_run hrun').queued
  obtain rfl : l₁ = l := hq₁.rings.unique hq.rings
  set u : World := ⟨{ v.kernel with ticksSinceCpu := 1 }, v.tree⟩
  have hcur' : u.kernel.current = 7 := hcur
  have hi : u.kernel.current ≠ u.kernel.idleTask := by
    rw [hcur', show u.kernel.idleTask = 9 from hidle]
    decide
  have hnb : (u.kernel.task u.kernel.current).state ≠ .blocked := by
    rw [hcur', show (u.kernel.task 7).state = .run from hstate]
    exact nofun
  have hpend' : (u.kernel.task u.kernel.current).pendingUnblocks = 0 := by
    rw [hcur']
    exact hpend
  obtain ⟨k₁, l₂, heq, hq₂, hready₂, htask₂, hcur₂, hticks₂, hmstuck₂, hstuck₂⟩ :=
    Kernel.sysBlock_eq hq₁ hi hnb hpend'
  rw [hready] at hready₂
  have hyields : ∀ {k : Kernel} {l' : Queue → List Slot}, Rings k.links l' → l' .ready = [8] →
      k.ticksSinceCpu = 1 → k.Yields := fun hr hl hk => by
    refine ⟨hk.le, Bool.eq_false_iff.mpr fun hempty => ?_⟩
    rw [(Kernel.listEmpty_ready_iff hr).mp hempty] at hl
    exact List.cons_ne_nil _ _ hl.symm
  obtain ⟨h', hsched, -⟩ := Kernel.schedule_yields hq₂ (hyields hq₂.rings hready₂ hticks₂) hready₂
  obtain ⟨-, -, hres⟩ := Kernel.schedule_spec hq₂
  have hst : u.step .block = some ⟨u.kernel.sysBlock, u.tree⟩ := by
    refine step_eq_some_iff.mpr ⟨kernelStep_eq_some_iff.mpr ⟨fun _ => hi, rfl, ?_, ?_⟩, rfl⟩
    · show u.kernel.sysBlock.mm.stuck = false
      rw [heq, hres.mm, hmstuck₂]
      exact hmstuck
    · show u.kernel.sysBlock.stuck = false
      rw [heq, hres.stuck, hstuck₂ 0 hpage]
      exact hstuck
  have hk : u.kernel.sysBlock = _ := heq.trans hsched
  have hcurrent : u.kernel.sysBlock.current = 8 := by rw [hk]; rfl
  have hblocked : (u.kernel.sysBlock.task 7).state = .blocked := by
    have htask₇ : (k₁.task 7).state = .blocked := by
      rw [htask₂, hcur', Function.update_self]
    rw [hk, Kernel.dispatch_task, if_neg (by decide)]
    show (k₁.putBack 7).state = _
    rw [Kernel.putBack, if_pos (by rw [hcur₂, hcur']; exact htask₇)]
    exact htask₇
  have hsound := (sound_boot ram).1.of_run hrun'
  refine ⟨u, _, hrun', hst, hyields hq₁.rings hready rfl, (hsound.step hst).1, hcurrent, ?_,
    hblocked, htree, ?_, ?_⟩
  · exact (hsound.step hst).2.2.trans hidle
  · exact (kernelStep_eq_some_iff.mp (step_eq_some_iff.mp hst).1).2.2.2
  · exact (kernelStep_eq_some_iff.mp (step_eq_some_iff.mp hst).1).2.2.1

end World

end ZeOS.Zeos
