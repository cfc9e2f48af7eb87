import Mathlib.Data.Fintype.Card
import ZeOS.Practica.Boot
import ZeOS.Practica.Outcome

/-!
# Invariants of whole runs

What is observed of a kernel – its queues, its live processes, their page
tables – read on the schedule it follows, and the rule the invariants of
runs are proved by: shown of the booted state, and of every `Outcome` of a
step, an invariant of schedules and memories holds at the end of every run.
-/

namespace ZeOS.Practica

namespace Kernel

variable {k : Kernel} {a : Schedule}

/-! ## Observations -/

/-- Following the pointers of a queue finds its slots. -/
theorem queueSlots_eq {head : Node} {l : List Slot}
    (hr : k.sched.links.IsRing head (Sched.nodes l)) : k.queueSlots head = l := by
  have hnd : l.Nodup := List.Nodup.of_map _ (List.nodup_cons.mp hr.nodup).2
  have hlen : l.length ≤ nrTasks := by
    have h := List.Nodup.length_le_card hnd
    rwa [Fintype.card_fin] at h
  rw [queueSlots, hr.walk_eq (by rw [List.length_map]; omega), List.filterMap_map]
  exact List.filterMap_some

theorem freeSlots_eq (h : k.sched.Threads a) : k.freeSlots = a.free := queueSlots_eq h.freeRing

theorem readySlots_eq (h : k.sched.Threads a) : k.readySlots = a.ready := queueSlots_eq h.readyRing

theorem live_iff (h : k.sched.Threads a) (s : Slot) : k.Live s ↔ a.Live s := by
  rw [Live, h.current_eq, h.idle_eq, readySlots_eq h]
  exact Iff.rfl

theorem ptOf_eq (h : k.sched.Threads a) {s : Slot} (hs : a.Live s) :
    k.ptOf s = k.mm.pagusrTable s := by
  rw [ptOf, h.dir_eq s ((a.live_iff s).mp hs)]

theorem currentPt_eq (h : k.sched.Threads a) : k.currentPt = k.mm.pagusrTable a.current := by
  rw [currentPt, h.getPt_current]

/-! ## Steps that are taken

The converse of `outcome_of_step` for the calls that always perform: from a
state that follows a schedule the step exists, as long as what it does to the
memory raises no mark. -/

/-- A state with no mark up, following a schedule. -/
structure Follows (k : Kernel) (a : Schedule) : Prop where
  threads : k.sched.Threads a
  mm_down : k.mm.stuck = false
  sched_down : k.sched.stuck = false
  counts_fit : k.mm.CountsFit

theorem Follows.ne (h : k.Follows a) (hidle : a.current ≠ a.idle) :
    k.sched.current ≠ k.sched.idleTask := by
  rwa [h.threads.current_eq, h.threads.idle_eq]

theorem Follows.entered (h : k.Follows a) : k.entered.Follows a where
  threads := threads_enter h.threads _
  mm_down := h.mm_down
  sched_down := (Sched.same_enter _ _).stuck.trans h.sched_down
  counts_fit := h.counts_fit

/-- A system call with a known effect is a step. -/
theorem exists_step {e : Event} {f : Kernel → Kernel} {a' : Schedule} (h : k.Follows a)
    (hidle : a.current ≠ a.idle) (hperf : k.perform e = some (k.systemCall f))
    (hf : (f k.entered).Follows a') :
    ∃ k', k.step e = some k' ∧ k'.Follows a' ∧ k'.mm = (f k.entered).mm
      ∧ k'.cb = (f k.entered).cb := by
  have hsame := Sched.same_leave (f k.entered).sched
  have hstuck : (k.systemCall f).sched.stuck = false := hsame.stuck.trans hf.sched_down
  exact ⟨k.systemCall f, step_eq_some_iff.mpr
    ⟨fun _ => h.ne hidle, hperf, hf.mm_down, hstuck, hf.counts_fit⟩,
    ⟨threads_systemCall hf.threads, hf.mm_down, hstuck, hf.counts_fit⟩, rfl, rfl⟩

theorem exists_fork (h : k.Follows a) {c : Slot} {cs : List Slot} (hfree : a.free = c :: cs)
    (hidle : a.current ≠ a.idle) (hlen : numPagData ≤ (freeFrames k.mm.physMem).length)
    (hpid : a.lastPid + 1 < 2 ^ 31)
    (hmm : ((k.mm.withFrames c numPagData).forkPages a.current c).stuck = false)
    (hfit : ((k.mm.withFrames c numPagData).forkPages a.current c).CountsFit) (ebp : DWord) :
    ∃ k', k.step (.fork ebp) = some k' ∧ k'.Follows (a.spawn c cs hfree hidle)
      ∧ k'.mm = (k.mm.withFrames c numPagData).forkPages a.current c ∧ k'.cb = k.cb := by
  obtain ⟨s', hres, hth, hst⟩ := sysFork_ok h.entered.threads hfree hidle hlen ebp
  have hdown : s'.stuck = false := by
    rw [hst, h.entered.sched_down, decide_eq_true hpid]
    rfl
  rw [entered_mm] at hres
  have hf : (k.entered.sysFork ebp).2.Follows (a.spawn c cs hfree hidle) := by
    rw [hres]
    refine ⟨hth, hmm, hdown, ?_⟩
    dsimp only
    exact hfit
  have hstep := exists_step (e := .fork ebp) (f := fun k => (k.sysFork ebp).2) h hidle rfl hf
  simp only [hres] at hstep
  exact hstep

theorem exists_forkFail (h : k.Follows a) {c : Slot} {cs : List Slot} (hfree : a.free = c :: cs)
    (hidle : a.current ≠ a.idle) (hlen : (freeFrames k.mm.physMem).length < numPagData)
    (hsame : (k.mm.allocDataPages c 0 numPagData).2 = k.mm) (ebp : DWord) :
    ∃ k', k.step (.fork ebp) = some k' ∧ k'.Follows (a.giveUp c cs hfree)
      ∧ k'.mm = k.mm ∧ k'.cb = k.cb := by
  obtain ⟨s', hres, hth, hst⟩ := sysFork_fail h.entered.threads hfree hlen ebp
  rw [entered_mm, hsame] at hres
  have hstep := exists_step (e := .fork ebp) (f := fun k => (k.sysFork ebp).2) h hidle rfl
    (by rw [hres]; exact ⟨hth, h.mm_down, hst.trans h.entered.sched_down, h.counts_fit⟩)
  simp only [hres] at hstep
  exact hstep

theorem exists_exit (h : k.Follows a) (hidle : a.current ≠ a.idle)
    (hmm : (k.mm.exitPages a.current).stuck = false)
    (hfit : (k.mm.exitPages a.current).CountsFit) (ebp : DWord) :
    ∃ k', k.step (.exit ebp) = some k' ∧ k'.Follows (a.retire hidle)
      ∧ k'.mm = k.mm.exitPages a.current ∧ k'.cb = k.cb := by
  obtain ⟨s', hres, hth, hst⟩ := sysExit_spec h.entered.threads hidle ebp
  rw [entered_mm] at hres
  have hf : (k.entered.sysExit ebp).Follows (a.retire hidle) := by
    rw [hres]
    refine ⟨hth, hmm, hst.trans h.entered.sched_down, ?_⟩
    dsimp only
    exact hfit
  have hstep := exists_step (e := .exit ebp) (f := fun k => k.sysExit ebp) h hidle rfl hf
  simp only [hres] at hstep
  exact hstep

theorem exists_yield (h : k.Follows a) (hidle : a.current ≠ a.idle) (ebp : DWord) :
    ∃ k', k.step (.yield ebp) = some k' ∧ k'.Follows a.rotate ∧ k'.mm = k.mm
      ∧ k'.cb = k.cb := by
  obtain ⟨hth, hst⟩ := Sched.threads_forceTaskSwitch h.entered.threads ebp
  exact exists_step (e := .yield ebp) (f := fun k => (k.sysYield ebp).2) h hidle rfl
    ⟨hth, h.mm_down, hst.trans h.entered.sched_down, h.counts_fit⟩

/-- A call on a segment does not touch the schedule. -/
theorem exists_shmat (h : k.Follows a) (hidle : a.current ≠ a.idle) {id addr : DWord} {m : Mm}
    (hm : (k.mm.sysShmat a.current id addr).2 = m) (hdown : m.stuck = false)
    (hfit : m.CountsFit) :
    ∃ k', k.step (.shmat id addr) = some k' ∧ k'.Follows a ∧ k'.mm = m := by
  have hth := h.entered.threads
  have hmm : (k.entered.mm.sysShmat (k.entered.sched.getPt k.entered.sched.current) id addr).2
      = m := by
    rw [hth.getPt_current]
    exact hm
  obtain ⟨k', hst, hf, hk, -⟩ := exists_step (e := .shmat id addr) h hidle rfl
    (f := fun k => { k with mm := (k.mm.sysShmat (k.sched.getPt k.sched.current) id addr).2 })
    ⟨hth, hmm ▸ hdown, h.entered.sched_down, hmm ▸ hfit⟩
  exact ⟨k', hst, hf, hk.trans hmm⟩

theorem exists_shmdt (h : k.Follows a) (hidle : a.current ≠ a.idle) (addr : DWord) {m : Mm}
    (hm : (k.mm.sysShmdt a.current a.current addr).2 = m) (hdown : m.stuck = false)
    (hfit : m.CountsFit) :
    ∃ k', k.step (.shmdt addr) = some k' ∧ k'.Follows a ∧ k'.mm = m := by
  have hth := h.entered.threads
  have hmm : (k.entered.mm.sysShmdt k.entered.sched.cr3
      (k.entered.sched.getPt k.entered.sched.current) addr).2 = m := by
    rw [hth.getPt_current, hth.cr3_eq]
    exact hm
  obtain ⟨k', hst, hf, hk, -⟩ := exists_step (e := .shmdt addr) h hidle rfl
    (f := fun k => { k with
      mm := (k.mm.sysShmdt k.sched.cr3 (k.sched.getPt k.sched.current) addr).2 })
    ⟨hth, hmm ▸ hdown, h.entered.sched_down, hmm ▸ hfit⟩
  exact ⟨k', hst, hf, hk.trans hmm⟩

/-- **A key with a character** goes to the end of the buffer. -/
theorem exists_key (hf : k.Follows a)
    (hcb : k.cb.initBuffer = k.cb) {c : Byte} (hc : c &&& 0x80#8 ≠ 0) (past : Byte) :
    ∃ k', k.step (.key c past) = some k' ∧ k'.Follows a ∧ k'.mm = k.mm
      ∧ k'.cb = k.cb.enqueue (charMap.getD (c &&& 0x7f#8).toNat past) := by
  have hth := threads_interrupt hf.threads
  set k₁ : Kernel := { k with sched := (k.sched.enter .interruptHandler).userToSystem }
  obtain ⟨hm, hs⟩ := keyboardRoutine_frame k₁ c past
  have hcb' : (k₁.keyboardRoutine c past).cb
      = k.cb.enqueue (charMap.getD (c &&& 0x7f#8).toNat past) := by
    unfold keyboardRoutine
    rw [if_pos hc]
    dsimp only
    split_ifs
    · rfl
    · show (k.cb.initBuffer).enqueue _ = _
      rw [hcb]
  have hdown : (k.keyboardHandler c past).sched.stuck = false := by
    show (k₁.keyboardRoutine c past).sched.leave.stuck = false
    rw [(Sched.same_leave _).stuck, hs]
    exact hf.sched_down
  have hmm : (k.keyboardHandler c past).mm = k.mm := hm
  refine ⟨k.keyboardHandler c past, step_eq_some_iff.mpr
    ⟨fun he => absurd he Bool.false_ne_true, rfl, hmm ▸ hf.mm_down, hdown, hmm ▸ hf.counts_fit⟩,
    ⟨Sched.Threads.same (hs ▸ hth) (Sched.same_leave _), hmm ▸ hf.mm_down, hdown,
      hmm ▸ hf.counts_fit⟩, hmm, hcb'⟩

end Kernel

/-- The booted state follows `bootSchedule`. -/
theorem follows_boot (M : Machine) : M.boot.Follows bootSchedule where
  threads := (Sched.threads_boot M).1
  mm_down := by rw [boot_mm]
  sched_down := (Sched.threads_boot M).2
  counts_fit i hi := by
    rw [boot_mm]
    dsimp only
    rw [if_pos hi]
    show (-2 ^ 31 : ℤ) ≤ 0 ∧ (0 : ℤ) < 2 ^ 31
    decide

/-- **A step follows an outcome.** -/
theorem Kernel.Follows.step {k k' : Kernel} {a : Schedule} (hf : k.Follows a) {e : Event}
    (hst : k.step e = some k') : ∃ a', k'.Follows a' ∧ Outcome a k.mm e a' k'.mm
      ∧ (e.byTask = true → a.current ≠ a.idle) := by
  obtain ⟨a', hth, ho⟩ := Kernel.outcome_of_step hf.threads hst
  obtain ⟨hen, -, hmm, hsc, hfit⟩ := Kernel.step_eq_some_iff.mp hst
  rw [hf.threads.current_eq, hf.threads.idle_eq] at hen
  exact ⟨a', ⟨hth, hmm, hsc, hfit⟩, ho, hen⟩

/-! ## The rule -/

/-- **A run keeps what every outcome keeps.** -/
theorem run_invariant_from {P : Kernel → Event → Prop} {I : Schedule → Mm → Prop} {k₀ : Kernel}
    (h₀ : ∃ a, k₀.Follows a ∧ I a k₀.mm)
    (hstep : ∀ k a e a' m', k.Follows a → (e.byTask = true → a.current ≠ a.idle) → I a k.mm →
      P k e → Outcome a k.mm e a' m' → m'.stuck = false → I a' m')
    {es : List Event} {k : Kernel} (h : Run Kernel.step P k₀ es k) :
    ∃ a, k.Follows a ∧ I a k.mm := by
  refine h.invariant (I := fun k => ∃ a, k.Follows a ∧ I a k.mm) ?_ h₀
  rintro k e k' ⟨a, hf, hI⟩ hP hst
  obtain ⟨a', hf', ho, hen⟩ := hf.step hst
  exact ⟨a', hf', hstep k a e a' k'.mm hf hen hI hP ho hf'.mm_down⟩

/-- The same from boot on. -/
theorem run_invariant {M : Machine} {P : Kernel → Event → Prop} {I : Schedule → Mm → Prop}
    (hboot : I bootSchedule M.boot.mm)
    (hstep : ∀ k a e a' m', k.Follows a → (e.byTask = true → a.current ≠ a.idle) → I a k.mm →
      P k e → Outcome a k.mm e a' m' → m'.stuck = false → I a' m')
    {es : List Event} {k : Kernel} (h : Run Kernel.step P M.boot es k) :
    ∃ a, k.Follows a ∧ I a k.mm :=
  run_invariant_from ⟨bootSchedule, follows_boot M, hboot⟩ hstep h

/-- Every reachable state follows a schedule. -/
theorem Reachable.follows {M : Machine} {k : Kernel} (h : Reachable M k) :
    ∃ a, k.Follows a := by
  obtain ⟨es, hrun⟩ := h
  obtain ⟨a, hf, -⟩ := run_invariant (I := fun _ _ => True) trivial
    (fun _ _ _ _ _ _ _ _ _ _ _ => trivial) hrun
  exact ⟨a, hf⟩

/-- A run whose steps meet a condition reaches a reachable state. -/
theorem reachable_of_run {M : Machine} {P : Kernel → Event → Prop} {es : List Event} {k : Kernel}
    (h : Run Kernel.step P M.boot es k) : Reachable M k := ⟨es, h.mono (fun _ _ _ => trivial)⟩

end ZeOS.Practica
