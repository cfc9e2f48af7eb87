import ZeOS.Practica.Tables

/-!
# The quantum discipline

`remaining_quantum` is counted down by every clock tick and the test that
ends a turn is equality with zero, so that the turn ends at all only if no
tick finds the counter at zero. It is loaded in three places – at boot, by
every dispatch, and by a tick that finds nobody waiting – always with the
quantum of the task that runs next, and every quantum is a copy of the one
the first task got.

A process that stays current has its counter counted down by every tick for
which somebody waits, and nothing reloads it: so it stays for no more ticks
than its quantum.
-/

namespace ZeOS.Practica

namespace Sched

variable {s s' s'' : Sched} {a : Schedule}

/-! ## Functions that do not touch a quantum -/

/-- Two states with the same quanta. -/
structure SameQuanta (s s' : Sched) : Prop where
  remaining : s'.remainingQuantum = s.remainingQuantum
  total : ∀ t, s'.getQuantum t = s.getQuantum t

theorem SameQuanta.refl (s : Sched) : SameQuanta s s := ⟨rfl, fun _ => rfl⟩

theorem SameQuanta.trans (h₁ : SameQuanta s s') (h₂ : SameQuanta s' s'') : SameQuanta s s'' :=
  ⟨h₂.remaining.trans h₁.remaining, fun t => (h₂.total t).trans (h₁.total t)⟩

theorem sameQuanta_modifyTask (s : Sched) (t : Slot) (f : TaskStruct → TaskStruct)
    (hf : ∀ c, (f c).totalQuantum = c.totalQuantum) : SameQuanta s (s.modifyTask t f) := by
  refine ⟨rfl, fun u => ?_⟩
  show (if u = t then f (s.task u) else s.task u).totalQuantum = (s.task u).totalQuantum
  split_ifs
  · exact hf _
  · rfl

theorem sameQuanta_updateStats (s : Sched) (t : Slot) (v : Counter) :
    SameQuanta s (s.updateStats t v) := by
  have h : SameQuanta s s.getTicks.2 := ⟨rfl, fun _ => rfl⟩
  refine h.trans ?_
  unfold updateStats
  exact sameQuanta_modifyTask _ t _ fun _ => rfl

theorem sameQuanta_enter (s : Sched) (e : Epilogue) : SameQuanta s (s.enter e) :=
  sameQuanta_modifyTask s _ _ fun _ => rfl

theorem sameQuanta_leave (s : Sched) : SameQuanta s s.leave := by
  unfold leave
  cases s.currentTask.epilogue with
  | interruptHandler => exact sameQuanta_updateStats s _ _
  | systemCallHandler => exact SameQuanta.refl s
  | cpuIdle => exact SameQuanta.refl s

theorem sameQuanta_linkTail (s : Sched) (new head : Node) : SameQuanta s (s.linkTail new head) := by
  unfold linkTail
  split <;> exact ⟨rfl, fun _ => rfl⟩

theorem sameQuanta_unlink (s : Sched) (entry : Node) : SameQuanta s (s.unlink entry) := by
  unfold unlink
  dsimp only
  split <;> exact ⟨rfl, fun _ => rfl⟩

theorem sameQuanta_updateProcessStateRr (s : Sched) (t : Slot) (dst : Option Node) :
    SameQuanta s (s.updateProcessStateRr t dst) := by
  unfold updateProcessStateRr
  have h : SameQuanta s (if (s.task t).state ≠ .run then s.unlink (.task t) else s) := by
    split_ifs
    · exact sameQuanta_unlink s _
    · exact SameQuanta.refl s
  refine h.trans ?_
  generalize (if (s.task t).state ≠ .run then s.unlink (.task t) else s) = s₁
  cases dst with
  | none => exact sameQuanta_modifyTask s₁ t _ fun _ => rfl
  | some q =>
    refine (sameQuanta_linkTail s₁ (.task t) q).trans ?_
    dsimp only
    split_ifs
    · exact sameQuanta_modifyTask _ t _ fun _ => rfl
    · exact (sameQuanta_updateStats _ t _).trans (sameQuanta_modifyTask _ t _ fun _ => rfl)

theorem sameQuanta_taskSwitch (s : Sched) (ebp : DWord) (t : Slot) :
    SameQuanta s (s.taskSwitch ebp t) := by
  have h : SameQuanta s (s.setCr3 (s.getDir t)) := ⟨rfl, fun _ => rfl⟩
  have h' := h.trans (sameQuanta_modifyTask _ (s.setCr3 (s.getDir t)).current
    (fun c => { c with registerEsp := ebp }) fun _ => rfl)
  exact ⟨h'.remaining, h'.total⟩

/-! ## Functions that load the counter -/

/-- **A full turn**: the counter is the quantum of the task that runs, and
the quanta are those there were. -/
structure FreshTurn (s s' : Sched) : Prop where
  remaining : s'.remainingQuantum = s'.getQuantum s'.current
  total : ∀ t, s'.getQuantum t = s.getQuantum t

theorem SameQuanta.freshTurn (h₁ : SameQuanta s s') (h₂ : FreshTurn s' s'') : FreshTurn s s'' :=
  ⟨h₂.remaining, fun t => (h₂.total t).trans (h₁.total t)⟩

theorem FreshTurn.same (h₁ : FreshTurn s s') (h₂ : SameQuanta s' s'')
    (hcur : s''.current = s'.current) : FreshTurn s s'' where
  remaining := by
    rw [h₂.remaining, hcur, h₂.total]
    exact h₁.remaining
  total t := (h₂.total t).trans (h₁.total t)

/-- **A dispatch starts a turn.** -/
theorem freshTurn_dispatch (s : Sched) (ebp : DWord) (t : Slot) :
    FreshTurn s (s.dispatch ebp t) := by
  set s₁ : Sched := s.modifyTask t (fun c => { c with state := .run }) with hs₁
  have h₁ : SameQuanta s s₁ := sameQuanta_modifyTask s t _ fun _ => rfl
  -- from the load of the counter on, the quanta stay
  have h₂ : SameQuanta { s₁ with remainingQuantum := s₁.getQuantum t } (s.dispatch ebp t) := by
    unfold dispatch
    refine (sameQuanta_updateStats _ s₁.current .systemTicks).trans
      ((sameQuanta_updateStats _ t .readyTicks).trans ?_)
    refine (sameQuanta_modifyTask _ t (fun c =>
      { c with pStats := { c.pStats with totalTrans := c.pStats.totalTrans + 1 } })
      fun _ => rfl).trans ?_
    exact sameQuanta_taskSwitch _ ebp t
  refine ⟨h₂.remaining.trans (h₂.total t).symm, fun u => ?_⟩
  exact (h₂.total u).trans (h₁.total u)

/-- **`sched_next_rr` dispatches** a task it has taken out of a queue, or the
idle task. -/
theorem exists_dispatch (s : Sched) (ebp : DWord) (hdown : (s.schedNextRr ebp).stuck = false) :
    ∃ s' t, s.schedNextRr ebp = s'.dispatch ebp t
      ∧ (s' = s ∨ ∃ u, s' = s.unlink (.task u)) := by
  unfold schedNextRr at hdown ⊢
  by_cases hempty : listEmpty s.links .readyqueue = false
  · rw [if_pos hempty] at hdown ⊢
    split at hdown
    · exact ⟨_, _, rfl, Or.inr ⟨_, rfl⟩⟩
    · exact absurd hdown (by simp)
  · rw [if_neg hempty]
    exact ⟨s, s.idleTask, rfl, Or.inl rfl⟩

theorem current_unlink (s : Sched) (entry : Node) : (s.unlink entry).current = s.current := by
  unfold unlink
  dsimp only
  split <;> rfl

theorem freshTurn_schedNextRr (s : Sched) (ebp : DWord)
    (hdown : (s.schedNextRr ebp).stuck = false) : FreshTurn s (s.schedNextRr ebp) := by
  obtain ⟨s', t, he, hs'⟩ := exists_dispatch s ebp hdown
  rw [he]
  rcases hs' with rfl | ⟨u, rfl⟩
  · exact freshTurn_dispatch _ ebp t
  · exact (sameQuanta_unlink s _).freshTurn (freshTurn_dispatch _ ebp t)

/-- Who runs after a yield. -/
theorem forceTaskSwitch_next (h : Threads s a) (hdown : s.stuck = false) (ebp : DWord) :
    (s.updateProcessStateRr s.current (some .readyqueue)).current = s.current
      ∧ (s.forceTaskSwitch ebp).current = a.rotate.current
      ∧ (s.forceTaskSwitch ebp).stuck = false := by
  obtain ⟨hth, hst⟩ := threads_forceTaskSwitch h ebp
  obtain ⟨h', hsame, -⟩ := updateProcessStateRr_spec h
  exact ⟨hsame.current, hth.current_eq, hst.trans hdown⟩

/-- **A yield starts a turn**, of whoever runs next. -/
theorem freshTurn_forceTaskSwitch (h : Threads s a) (hdown : s.stuck = false) (ebp : DWord) :
    FreshTurn s (s.forceTaskSwitch ebp) :=
  (sameQuanta_updateProcessStateRr s _ _).freshTurn
    (freshTurn_schedNextRr _ ebp (forceTaskSwitch_next h hdown ebp).2.2)

/-- **The clock**: a turn with more than one tick left goes on with one tick
less. -/
theorem schedule_of_ne_one (hq : s.remainingQuantum ≠ 1) (ebp : DWord) :
    s.schedule ebp = s.updateSchedDataRr := by
  have hne : ¬ s.updateSchedDataRr.remainingQuantum = 0 := by
    show ¬ s.remainingQuantum - 1 = 0
    omega
  unfold schedule needsSchedRr
  rw [if_neg (fun hc => hne hc.1), if_neg hne]

/-- The last tick of a turn is a yield if anybody waits. -/
theorem schedule_of_waiting (hq : s.remainingQuantum = 1)
    (hready : listEmpty s.links .readyqueue = false) (ebp : DWord) :
    s.schedule ebp = s.updateSchedDataRr.forceTaskSwitch ebp := by
  have hzero : s.updateSchedDataRr.remainingQuantum = 0 := by
    show s.remainingQuantum - 1 = 0
    omega
  unfold schedule needsSchedRr
  rw [if_pos ⟨hzero, hready⟩]
  rfl

/-- Where nobody waits it loads the counter. -/
theorem schedule_of_alone (hq : s.remainingQuantum = 1)
    (hready : listEmpty s.links .readyqueue = true) (ebp : DWord) :
    s.schedule ebp = { s with remainingQuantum := s.getQuantum s.current } := by
  have hzero : s.updateSchedDataRr.remainingQuantum = 0 := by
    show s.remainingQuantum - 1 = 0
    omega
  have hnot : ¬ listEmpty s.updateSchedDataRr.links .readyqueue = false := by
    show ¬ listEmpty s.links .readyqueue = false
    rw [hready]
    decide
  unfold schedule needsSchedRr
  rw [if_neg (fun hc => hnot hc.2), if_pos hzero]
  rfl

/-- **The clock yields** for the current task if its turn is over and somebody
waits; otherwise it only sets the counter. -/
theorem schedule_cases (h : Threads s a) (ebp : DWord) :
    (s.remainingQuantum = 1 ∧ a.ready ≠ [])
        ∧ s.schedule ebp = s.updateSchedDataRr.forceTaskSwitch ebp
      ∨ ¬ (s.remainingQuantum = 1 ∧ a.ready ≠ [])
        ∧ ∃ n, s.schedule ebp = { s with remainingQuantum := n } := by
  by_cases hq : s.remainingQuantum = 1
  · cases hempty : listEmpty s.links .readyqueue with
    | false =>
      have hready : a.ready ≠ [] := by
        intro hnil
        rw [h.listEmpty_ready.mpr hnil] at hempty
        exact absurd hempty (by decide)
      exact Or.inl ⟨⟨hq, hready⟩, schedule_of_waiting hq hempty ebp⟩
    | true =>
      exact Or.inr ⟨fun hc => hc.2 (h.listEmpty_ready.mp hempty), _,
        schedule_of_alone hq hempty ebp⟩
  · exact Or.inr ⟨fun hc => hq hc.1, _, schedule_of_ne_one hq ebp⟩

/-- The last tick of a turn starts another one: of somebody else if anybody
waits. -/
theorem schedule_of_eq_one (h : Threads s a) (hdown : s.stuck = false)
    (hq : s.remainingQuantum = 1) (ebp : DWord) :
    FreshTurn s (s.schedule ebp)
      ∧ (a.ready ≠ [] → (s.schedule ebp).current = a.rotate.current) := by
  cases hempty : listEmpty s.links .readyqueue with
  | false =>
    have h₁ : Threads s.updateSchedDataRr a := h.same (same_quantum s _)
    have hturn := freshTurn_forceTaskSwitch h₁ hdown ebp
    rw [schedule_of_waiting hq hempty]
    exact ⟨⟨hturn.remaining, hturn.total⟩,
      fun _ => (threads_forceTaskSwitch h₁ ebp).1.current_eq⟩
  | true =>
    rw [schedule_of_alone hq hempty]
    exact ⟨⟨rfl, fun _ => rfl⟩, fun hready => absurd (h.listEmpty_ready.mp hempty) hready⟩

end Sched

/-! ## What an event does to the scheduler -/

/-- Whether an event is a clock interrupt. -/
def Event.isTick : Event → Bool
  | .tick _ => true
  | _ => false

namespace Kernel

variable {k k' : Kernel} {a a' : Schedule} {e : Event}

/-- The scheduler after an event. -/
def schedAfter (k : Kernel) : Event → Sched
  | .tick ebp => (k.interrupted.schedule ebp).leave
  | .key _ _ => k.interrupted.leave
  | .load _ => k.sched
  | .store addr _ =>
    if k.mm.userCanStore k.sched.cr3 addr.toNat then k.sched else k.interrupted.leave
  | .fault _ => k.interrupted.leave
  | .fork ebp => (k.entered.sysFork ebp).2.sched.leave
  | .exit ebp => (k.entered.sysExit ebp).sched.leave
  | .yield ebp => (k.entered.sched.forceTaskSwitch ebp).leave
  | .shmat _ _ => k.entered.sched.leave
  | .shmdt _ => k.entered.sched.leave
  | .shmrm _ => k.entered.sched.leave
  | .read _ _ => k.entered.sched.leave
  | .getStats pid st => (k.entered.sysGetStats pid st).2.sched.leave

/-- **The scheduler after a step.** -/
theorem sched_of_step (h : k.step e = some k') : k'.sched = k.schedAfter e := by
  obtain ⟨-, hperf, -, -⟩ := step_eq_some_iff.mp h
  cases e with
  | key c past =>
    obtain rfl := Option.some_inj.mp hperf
    exact congrArg Sched.leave
      (keyboardRoutine_frame { k with sched := k.interrupted } c past).2
  | load addr =>
    obtain rfl := eq_of_perform_load hperf
    rfl
  | store addr b =>
    obtain ⟨m, rfl⟩ := exists_of_perform_store hperf
    rfl
  | fault cr2 =>
    obtain ⟨m, rfl⟩ := exists_of_perform_fault hperf
    rfl
  | read b maxchars =>
    obtain rfl := Option.some_inj.mp hperf
    exact congrArg Sched.leave (ramOnly_sysRead k.entered b maxchars).2
  | tick ebp | fork ebp | exit ebp | yield ebp | shmat id addr | shmdt addr | shmrm id
  | getStats pid st =>
    obtain rfl := Option.some_inj.mp hperf
    rfl

/-! ## Turns

What an event does to the schedule and to the counter of the turn that is
on: this is the machine the discipline is about. -/

/-- **A step of the turns.** -/
inductive Turn (a : Schedule) (q : ℤ) : Event → Schedule → ℤ → Prop
  /-- The turn goes on with one tick less. -/
  | down (ebp : DWord) (hq : q ≠ 1) : Turn a q (.tick ebp) a (q - 1)
  /-- The turn is over and nobody waits. -/
  | reload (ebp : DWord) (hq : q = 1) (hready : a.ready = []) :
      Turn a q (.tick ebp) a Sched.defaultQuantum
  /-- The turn is over and the first one that waits runs. -/
  | expire (ebp : DWord) (hq : q = 1) (hready : a.ready ≠ []) :
      Turn a q (.tick ebp) a.rotate Sched.defaultQuantum
  | yield (ebp : DWord) : Turn a q (.yield ebp) a.rotate Sched.defaultQuantum
  | exit (ebp : DWord) (hidle : a.current ≠ a.idle) :
      Turn a q (.exit ebp) (a.retire hidle) Sched.defaultQuantum
  /-- Any other event is within the turn; at most somebody joins the line. -/
  | keep {e : Event} {a' : Schedule} (htick : ∀ ebp, e ≠ .tick ebp)
      (hcurrent : a'.current = a.current) (hready : a.ready ≠ [] → a'.ready ≠ []) :
      Turn a q e a' q

/-- **The quanta of a state**: every task that is not free has the quantum
the first one got. -/
def Quanta (k : Kernel) (a : Schedule) : Prop :=
  ∀ t, t ∉ a.free → k.sched.getQuantum t = Sched.defaultQuantum

/-- What a full turn leaves. -/
theorem Quanta.freshTurn (h : k.Quanta a) (hf' : k'.Follows a')
    (hturn : Sched.FreshTurn k.sched k'.sched) (hfree : ∀ t, t ∉ a'.free → t ∉ a.free) :
    k'.Quanta a' ∧ k'.sched.remainingQuantum = Sched.defaultQuantum := by
  have h' : k'.Quanta a' := fun t ht => (hturn.total t).trans (h t (hfree t ht))
  refine ⟨h', hturn.remaining.trans (h' _ ?_)⟩
  rw [hf'.threads.current_eq]
  exact a'.current_notMem.1

/-- The quanta through an interrupt. -/
theorem sameQuanta_interrupted (k : Kernel) : Sched.SameQuanta k.sched k.interrupted :=
  (Sched.sameQuanta_enter _ _).trans (Sched.sameQuanta_updateStats _ _ _)

theorem current_interrupted (k : Kernel) : k.interrupted.current = k.sched.current :=
  k.same_interrupted.current

/-- An interrupt raises no mark. -/
theorem Follows.interrupted_down (hf : k.Follows a) : k.interrupted.stuck = false :=
  k.same_interrupted.stuck.trans hf.sched_down

/-- A tick within a turn. -/
theorem tick_within (hq : k.sched.remainingQuantum ≠ 1) {ebp : DWord}
    (hst : k.step (.tick ebp) = some k') :
    k'.sched.remainingQuantum = k.sched.remainingQuantum - 1
      ∧ (∀ t, k'.sched.getQuantum t = k.sched.getQuantum t)
      ∧ k'.sched.current = k.sched.current := by
  have hin := k.sameQuanta_interrupted
  have hleave := Sched.sameQuanta_leave k.interrupted.updateSchedDataRr
  have hres : k'.sched = k.interrupted.updateSchedDataRr.leave := by
    rw [sched_of_step hst, schedAfter, Sched.schedule_of_ne_one (hin.remaining ▸ hq)]
  rw [hres]
  refine ⟨hleave.remaining.trans (congrArg (· - 1) hin.remaining),
    fun t => (hleave.total t).trans (hin.total t), ?_⟩
  exact (Sched.same_leave _).current.trans k.current_interrupted

/-- The tick that ends a turn. -/
theorem tick_last (hf : k.Follows a) (hq : k.sched.remainingQuantum = 1) {ebp : DWord}
    (hst : k.step (.tick ebp) = some k') :
    Sched.FreshTurn k.sched k'.sched
      ∧ (a.ready ≠ [] → k'.sched.current = a.rotate.current) := by
  have hin := k.sameQuanta_interrupted
  obtain ⟨hturn, hcur⟩ := Sched.schedule_of_eq_one (s := k.interrupted)
    (threads_interrupt hf.threads) hf.interrupted_down (hin.remaining.trans hq) ebp
  have hleave := Sched.same_leave (k.interrupted.schedule ebp)
  rw [sched_of_step hst, schedAfter]
  exact ⟨(hin.freshTurn hturn).same (Sched.sameQuanta_leave _) hleave.current,
    fun hready => hleave.current.trans (hcur hready)⟩

theorem freshTurn_yield (hf : k.Follows a) {ebp : DWord}
    (hst : k.step (.yield ebp) = some k') : Sched.FreshTurn k.sched k'.sched := by
  have hturn := Sched.freshTurn_forceTaskSwitch hf.entered.threads hf.entered.sched_down ebp
  rw [sched_of_step hst, schedAfter]
  exact ((Sched.sameQuanta_enter k.sched .systemCallHandler).freshTurn hturn).same
    (Sched.sameQuanta_leave _) (Sched.same_leave _).current

theorem freshTurn_exit {ebp : DWord} (hst : k.step (.exit ebp) = some k') :
    Sched.FreshTurn k.sched k'.sched := by
  have hdown := (step_eq_some_iff.mp hst).2.2.2.1
  rw [sched_of_step hst, schedAfter] at hdown ⊢
  have hleave := Sched.same_leave (k.entered.sysExit ebp).sched
  have hturn := Sched.freshTurn_schedNextRr _ ebp (hleave.stuck.symm.trans hdown)
  have hpre := (Sched.sameQuanta_enter k.sched .systemCallHandler).trans
    ((Sched.sameQuanta_linkTail _ (.task k.entered.sched.current) .freequeue).trans
      (Sched.sameQuanta_modifyTask _
        (k.entered.sched.linkTail (.task k.entered.sched.current) .freequeue).current
        (fun c => { c with pid := -1 }) fun _ => rfl))
  exact (hpre.freshTurn hturn).same (Sched.sameQuanta_leave _) hleave.current

/-- **The quanta after a fork**: the slot taken gets the quantum of its
parent. -/
theorem quanta_sysFork (hf : k.Follows a) {c : Slot} {cs : List Slot} (hfree : a.free = c :: cs)
    (ebp : DWord) :
    (k.sysFork ebp).2.sched.remainingQuantum = k.sched.remainingQuantum
      ∧ ∀ t, (k.sysFork ebp).2.sched.getQuantum t
        = k.sched.getQuantum (if t = c then a.current else t) := by
  obtain ⟨h', hres, -, -⟩ := Sched.reserve_spec hf.threads hfree
  have hrem : (k.sched.reserve c).remainingQuantum = k.sched.remainingQuantum := by
    rw [hres]
  have htotal : ∀ t, (k.sched.reserve c).getQuantum t
      = k.sched.getQuantum (if t = c then a.current else t) := by
    intro t
    rw [hres]
    simp only [Sched.getQuantum]
    split_ifs <;> rfl
  have hchild : Sched.SameQuanta (k.sched.reserve c) ((k.sched.reserve c).startChild ebp c) := by
    refine ⟨?_, ?_⟩
    · exact (Sched.sameQuanta_linkTail _ _ _).remaining
    · intro t
      refine ((Sched.sameQuanta_linkTail _ _ _).total t).trans ?_
      simp only [Sched.getQuantum, Sched.modifyTask, Sched.initStats, Sched.getTicks, Sched.setCr3]
      split_ifs <;> rfl
  rw [sysFork_cons hf.threads hfree]
  split
  · have htail := Sched.sameQuanta_linkTail (k.sched.reserve c) (.task c) .freequeue
    exact ⟨htail.remaining.trans hrem, fun t => (htail.total t).trans (htotal t)⟩
  · exact ⟨hchild.remaining.trans hrem, fun t => (hchild.total t).trans (htotal t)⟩

/-- An event that neither ends a turn nor makes a process. -/
theorem sameQuanta_of_step (hst : k.step e = some k') (htick : ∀ ebp, e ≠ .tick ebp)
    (hfork : ∀ ebp, e ≠ .fork ebp) (hexit : ∀ ebp, e ≠ .exit ebp)
    (hyield : ∀ ebp, e ≠ .yield ebp) : Sched.SameQuanta k.sched k'.sched := by
  have hint : Sched.SameQuanta k.sched k.interrupted.leave :=
    k.sameQuanta_interrupted.trans (Sched.sameQuanta_leave _)
  have hcall : Sched.SameQuanta k.sched k.entered.sched :=
    Sched.sameQuanta_enter k.sched .systemCallHandler
  rw [sched_of_step hst]
  cases e with
  | tick ebp => exact absurd rfl (htick ebp)
  | fork ebp => exact absurd rfl (hfork ebp)
  | exit ebp => exact absurd rfl (hexit ebp)
  | yield ebp => exact absurd rfl (hyield ebp)
  | load addr => exact Sched.SameQuanta.refl _
  | key c past | fault cr2 => exact hint
  | store addr b =>
    simp only [schedAfter]
    split_ifs
    · exact Sched.SameQuanta.refl _
    · exact hint
  | shmat id addr | shmdt addr | shmrm id | read b maxchars =>
    exact hcall.trans (Sched.sameQuanta_leave _)
  | getStats pid st =>
    refine Sched.SameQuanta.trans (hcall.trans ?_) (Sched.sameQuanta_leave _)
    unfold sysGetStats
    split
    · exact Sched.SameQuanta.refl _
    · split
      · exact Sched.SameQuanta.refl _
      · split
        · rename_i i _
          exact Sched.sameQuanta_modifyTask k.entered.sched i (fun c =>
            { c with pStats :=
              { c.pStats with
                remainingTicks := BitVec.ofInt 32 k.entered.sched.remainingQuantum } })
            fun _ => rfl
        · exact Sched.SameQuanta.refl _

end Kernel

/-- The first one that waits is not the one that runs. -/
theorem Schedule.rotate_current_ne {a : Schedule} (h : a.ready ≠ []) :
    a.rotate.current ≠ a.current := by
  obtain ⟨t, ts, hready⟩ := List.exists_cons_of_ne_nil h
  rw [a.rotate_eq.2.2.2.2.2, hready]
  exact fun he => a.current_notMem.2 (hready ▸ he ▸ List.mem_cons_self)

theorem Schedule.rotate_eq_self {a : Schedule} (h : a.ready = []) : a.rotate = a := by
  unfold rotate
  split
  · rfl
  · rename_i hready
    rw [h] at hready
    exact absurd hready (by simp)

namespace Kernel

variable {k k' : Kernel} {a : Schedule} {e : Event}

/-- The schedule after a tick. -/
theorem follows_tick (hf : k.Follows a) {ebp : DWord} (hst : k.step (.tick ebp) = some k') :
    k'.Follows (if k.sched.remainingQuantum = 1 ∧ a.ready ≠ [] then a.rotate else a) := by
  obtain ⟨a', hf', ho, -⟩ := hf.step hst
  have hcur' := hf'.threads.current_eq
  generalize k'.mm = m' at ho
  cases ho with
  | stay =>
    rw [if_neg]
    · exact hf'
    · rintro ⟨hq, hready⟩
      have h := (tick_last hf hq hst).2 hready
      rw [hcur'] at h
      exact Schedule.rotate_current_ne hready h.symm
  | switch ebp hready =>
    rw [if_pos]
    · exact hf'
    · refine ⟨by_contra fun hq => ?_, hready⟩
      obtain ⟨-, -, hcur⟩ := tick_within hq hst
      rw [hcur', hf.threads.current_eq] at hcur
      exact Schedule.rotate_current_ne hready hcur

/-- The turns through a tick. -/
theorem turn_of_tick (hf : k.Follows a) (hq : k.Quanta a) {ebp : DWord}
    (hst : k.step (.tick ebp) = some k') :
    ∃ a', k'.Follows a' ∧ k'.Quanta a'
      ∧ Turn a k.sched.remainingQuantum (.tick ebp) a' k'.sched.remainingQuantum := by
  have hf' := follows_tick hf hst
  by_cases hone : k.sched.remainingQuantum = 1
  · have hturn := (tick_last hf hone hst).1
    by_cases hready : a.ready = []
    · rw [if_neg (fun hc => hc.2 hready)] at hf'
      obtain ⟨hq', hrem⟩ := hq.freshTurn hf' hturn fun _ ht => ht
      rw [hrem]
      exact ⟨a, hf', hq', Turn.reload ebp hone hready⟩
    · rw [if_pos ⟨hone, hready⟩] at hf'
      obtain ⟨hq', hrem⟩ := hq.freshTurn hf' hturn fun t ht => a.rotate_eq.1 ▸ ht
      rw [hrem]
      exact ⟨a.rotate, hf', hq', Turn.expire ebp hone hready⟩
  · rw [if_neg (fun hc => hone hc.1)] at hf'
    obtain ⟨hrem, htotal, -⟩ := tick_within hone hst
    rw [hrem]
    exact ⟨a, hf', fun t ht => (htotal t).trans (hq t ht), Turn.down ebp hone⟩

/-- **The kernel follows the turns.** -/
theorem turn_of_step (hf : k.Follows a) (hq : k.Quanta a) (hst : k.step e = some k') :
    ∃ a', k'.Follows a' ∧ k'.Quanta a'
      ∧ Turn a k.sched.remainingQuantum e a' k'.sched.remainingQuantum := by
  by_cases htick : ∃ ebp, e = .tick ebp
  · obtain ⟨ebp, rfl⟩ := htick
    exact turn_of_tick hf hq hst
  obtain ⟨a', hf', ho, -⟩ := hf.step hst
  refine ⟨a', hf', ?_⟩
  -- an event that leaves the schedule and the quanta alone
  have hkeep : a' = a → (∀ ebp, e ≠ .tick ebp) → (∀ ebp, e ≠ .fork ebp) →
      (∀ ebp, e ≠ .exit ebp) → (∀ ebp, e ≠ .yield ebp) →
      k'.Quanta a' ∧ Turn a k.sched.remainingQuantum e a' k'.sched.remainingQuantum := by
    rintro rfl h₁ h₂ h₃ h₄
    have hsame := sameQuanta_of_step hst h₁ h₂ h₃ h₄
    refine ⟨fun t ht => (hsame.total t).trans (hq t ht), ?_⟩
    rw [hsame.remaining]
    exact Turn.keep h₁ rfl id
  have hent : k.entered.sched.remainingQuantum = k.sched.remainingQuantum
      ∧ ∀ t, k.entered.sched.getQuantum t = k.sched.getQuantum t :=
    ⟨rfl, (Sched.sameQuanta_enter k.sched .systemCallHandler).total⟩
  generalize k'.mm = m' at ho
  cases ho with
  | stay ebp => exact absurd ⟨ebp, rfl⟩ htick
  | switch ebp hready => exact absurd ⟨ebp, rfl⟩ htick
  | yield ebp =>
    obtain ⟨hq', hrem⟩ := hq.freshTurn hf' (freshTurn_yield hf hst)
      (fun t ht => a.rotate_eq.1 ▸ ht)
    rw [hrem]
    exact ⟨hq', Turn.yield ebp⟩
  | exit ebp hidle =>
    obtain ⟨hq', hrem⟩ := hq.freshTurn hf' (freshTurn_exit hst)
      (fun t ht hm => ht ((Schedule.mem_free_retire hidle).mpr (Or.inl hm)))
    rw [hrem]
    exact ⟨hq', Turn.exit ebp hidle⟩
  | forkNone ebp hfree =>
    have hres := sysFork_none hf.entered.threads hfree ebp
    have hsame : Sched.SameQuanta k.sched k'.sched := by
      rw [sched_of_step hst, schedAfter, hres]
      exact Sched.SameQuanta.trans ⟨hent.1, hent.2⟩ (Sched.sameQuanta_leave _)
    refine ⟨fun t ht => (hsame.total t).trans (hq t ht), ?_⟩
    rw [hsame.remaining]
    exact Turn.keep (by simp) rfl id
  | forkFail ebp c cs hfree hlen =>
    obtain ⟨hrem, htotal⟩ := quanta_sysFork hf.entered hfree ebp
    have hleave := Sched.sameQuanta_leave (k.entered.sysFork ebp).2.sched
    rw [Quanta, sched_of_step hst, schedAfter, hleave.remaining, hrem, hent.1]
    refine ⟨fun t ht => ?_, Turn.keep (by simp) rfl id⟩
    rw [hleave.total, htotal, hent.2]
    refine hq _ ?_
    split_ifs
    · exact a.current_notMem.1
    · exact fun hm => ht ((Schedule.mem_free_giveUp hfree).mpr hm)
  | forkOk ebp c cs hfree hidle hlen =>
    obtain ⟨hrem, htotal⟩ := quanta_sysFork hf.entered hfree ebp
    have hleave := Sched.sameQuanta_leave (k.entered.sysFork ebp).2.sched
    rw [Quanta, sched_of_step hst, schedAfter, hleave.remaining, hrem, hent.1]
    refine ⟨fun t ht => ?_, Turn.keep (by simp) rfl (fun h hnil => ?_)⟩
    · rw [hleave.total, htotal, hent.2]
      refine hq _ ?_
      split_ifs with htc
      · exact a.current_notMem.1
      · rw [hfree]
        exact fun hm => (List.mem_cons.mp hm).elim htc ht
    · exact h (List.append_eq_nil_iff.mp hnil).1
  | key c past | load addr hload | store addr b loc hcan hloc hframe
  | storeFault addr b m₁ loc hcan hfault hcan₁ hloc hframe | fault cr2 m₁ hcan hfault
  | shmat id addr | shmdt addr | shmrm id | read b maxchars ram | getStats pid st ram =>
    exact hkeep rfl (by simp) (by simp) (by simp) (by simp)

end Kernel

/-! ## The discipline -/

section Discipline

variable {M : Machine} {k k' : Kernel}

/-- A turn never runs out between events. -/
theorem Kernel.Turn.bounds {a a' : Schedule} {q q' : ℤ} {e : Event} (h : Kernel.Turn a q e a' q')
    (hq : 1 ≤ q ∧ q ≤ Sched.defaultQuantum) : 1 ≤ q' ∧ q' ≤ Sched.defaultQuantum := by
  cases h with
  | down ebp hne => omega
  | reload | expire | yield | exit => decide
  | keep => exact hq

/-- The first task and the idle task have the quantum of `init_task1`. -/
theorem quanta_boot (M : Machine) :
    M.boot.Quanta bootSchedule ∧ M.boot.sched.remainingQuantum = Sched.defaultQuantum := by
  refine ⟨fun t ht => ?_, rfl⟩
  have ht01 : t = 0 ∨ t = 1 := by
    revert t
    decide
  rcases ht01 with rfl | rfl
  · rfl
  · rfl

/-- **Every reachable state** follows the turns. -/
theorem Reachable.quanta (h : Reachable M k) :
    ∃ a, k.Follows a ∧ k.Quanta a ∧ 1 ≤ k.sched.remainingQuantum
      ∧ k.sched.remainingQuantum ≤ Sched.defaultQuantum := by
  obtain ⟨es, hrun⟩ := h
  refine hrun.invariant (I := fun k => ∃ a, k.Follows a ∧ k.Quanta a
    ∧ 1 ≤ k.sched.remainingQuantum ∧ k.sched.remainingQuantum ≤ Sched.defaultQuantum) ?_ ?_
  · rintro k e k' ⟨a, hf, hq, hbounds⟩ - hst
    obtain ⟨a', hf', hq', hturn⟩ := Kernel.turn_of_step hf hq hst
    exact ⟨a', hf', hq', hturn.bounds hbounds⟩
  · obtain ⟨hq, hrem⟩ := quanta_boot M
    rw [hrem]
    exact ⟨bootSchedule, follows_boot M, hq, by decide, by decide⟩

/-- **What is left of a turn** after `n` ticks of it: they and the counter
make at most a quantum, and somebody waits if there has been one. -/
def Kernel.Within (p : Slot) (n : ℕ) (a : Schedule) (q : ℤ) : Prop :=
  n ≤ Sched.defaultQuantum
    ∧ (a.current = p → n + q ≤ Sched.defaultQuantum ∧ (n = 0 ∨ a.ready ≠ []))

/-- **A step within a turn**, or the one that ends it. -/
theorem Kernel.Turn.within {p : Slot} {n : ℕ} {a a' : Schedule} {q q' : ℤ} {e : Event}
    (h : Kernel.Turn a q e a' q') (hcur : a.current = p)
    (hwait : e.isTick = true → a.ready ≠ []) (hq : 1 ≤ q) (hn : Kernel.Within p n a q) :
    Kernel.Within p (n + if e.isTick then 1 else 0) a' q' := by
  subst hcur
  obtain ⟨hle, hturn⟩ := hn
  obtain ⟨hsum, hsome⟩ := hturn rfl
  have hpast : (n : ℤ) + 1 ≤ Sched.defaultQuantum := by omega
  cases h with
  | down ebp hne =>
    refine ⟨by exact_mod_cast hpast, fun _ => ⟨?_, Or.inr (hwait rfl)⟩⟩
    show ((n + 1 : ℕ) : ℤ) + (q - 1) ≤ _
    omega
  | reload ebp hone hready => exact absurd hready (hwait rfl)
  | expire ebp hone hready =>
    exact ⟨by exact_mod_cast hpast, fun hc => absurd hc (Schedule.rotate_current_ne hready)⟩
  | yield ebp =>
    refine ⟨hle, fun hc => ?_⟩
    -- a process that yields and goes on had nobody waiting
    have hready : a.ready = [] := by
      by_contra hne
      exact Schedule.rotate_current_ne hne hc
    have hzero : n = 0 := hsome.resolve_right (fun h => h hready)
    subst hzero
    exact ⟨le_of_eq (zero_add _), Or.inl rfl⟩
  | exit ebp hidle =>
    refine ⟨hle, fun hc => absurd hc ?_⟩
    show a.ready.headD a.idle ≠ a.current
    cases hready : a.ready with
    | nil => exact hidle.symm
    | cons t ts => exact fun he => a.current_notMem.2 (hready ▸ he ▸ List.mem_cons_self)
  | keep htick hcurrent hready =>
    have hnot : e.isTick = false := by
      cases e with
      | tick ebp => exact absurd rfl (htick ebp)
      | _ => rfl
    rw [hnot]
    exact ⟨hle, fun _ => ⟨hsum, hsome.imp id hready⟩⟩

/-- A run of events under one current process. -/
theorem within_of_run (h : Reachable M k) {es : List Event}
    (hrun : Run Kernel.step (fun l e => l.sched.current = k.sched.current
      ∧ (e.isTick = true → l.readySlots ≠ [])) k es k') :
    ∃ a, k'.Follows a ∧ k'.Quanta a
      ∧ (1 ≤ k'.sched.remainingQuantum ∧ k'.sched.remainingQuantum ≤ Sched.defaultQuantum)
      ∧ Kernel.Within k.sched.current (es.countP Event.isTick) a k'.sched.remainingQuantum := by
  induction hrun with
  | nil =>
    obtain ⟨a, hf, hq, hpos, hle⟩ := h.quanta
    refine ⟨a, hf, hq, ⟨hpos, hle⟩, by decide, fun _ => ⟨?_, Or.inl rfl⟩⟩
    rwa [List.countP_nil, Int.natCast_zero, zero_add]
  | @snoc l k' es e _ hP hst ih =>
    obtain ⟨a, hf, hq, hbounds, hwithin⟩ := ih
    obtain ⟨hcur, hwait⟩ := hP
    rw [hf.threads.current_eq] at hcur
    rw [Kernel.readySlots_eq hf.threads] at hwait
    obtain ⟨a', hf', hq', hturn⟩ := Kernel.turn_of_step hf hq hst
    refine ⟨a', hf', hq', hturn.bounds hbounds, ?_⟩
    rw [List.countP_append, List.countP_singleton]
    exact hturn.within hcur hwait hbounds.1 hwithin

end Discipline

/-- **The quantum discipline.** Between events the counter of the turn is
between one and the quantum of the current task; and a process stays current
through no more consecutive ticks than its quantum while somebody waits. -/
theorem quantum_discipline (M : Machine) :
    (∀ k, Reachable M k → 1 ≤ k.sched.remainingQuantum
      ∧ k.sched.remainingQuantum ≤ k.sched.getQuantum k.sched.current)
    ∧ ∀ k es k', Reachable M k →
        Run Kernel.step (fun l e => l.sched.current = k.sched.current
          ∧ (e.isTick = true → l.readySlots ≠ [])) k es k' →
        (es.countP Event.isTick : ℤ) ≤ k.sched.getQuantum k.sched.current := by
  have hquantum : ∀ k, Reachable M k →
      k.sched.getQuantum k.sched.current = Sched.defaultQuantum := by
    intro k hk
    obtain ⟨a, hf, hq, -⟩ := hk.quanta
    rw [hf.threads.current_eq]
    exact hq _ a.current_notMem.1
  refine ⟨fun k hk => ?_, fun k es k' hk hrun => ?_⟩
  · obtain ⟨a, -, -, hpos, hle⟩ := hk.quanta
    rw [hquantum k hk]
    exact ⟨hpos, hle⟩
  · obtain ⟨a, -, -, -, hn, -⟩ := within_of_run hk hrun
    rwa [hquantum k hk]

/-- A tick can always come. -/
theorem Kernel.exists_tick {k : Kernel} {a : Schedule} (hf : k.Follows a) (ebp : DWord) :
    ∃ k', k.step (.tick ebp) = some k' := by
  have hdown : (k.interrupted.schedule ebp).leave.stuck = false :=
    (Sched.same_leave _).stuck.trans
      ((Sched.threads_schedule (s := k.interrupted) (threads_interrupt hf.threads) ebp).2.trans
        hf.interrupted_down)
  exact ⟨k.clockHandler ebp, step_eq_some_iff.mpr
    ⟨fun he => absurd he Bool.false_ne_true, rfl, hf.mm_down, hdown, hf.counts_fit⟩⟩

/-- The first task has forked, and the child waits for a tick. -/
theorem quantum_discipline_boot :
    ∃ k k', Run Kernel.step (fun l e => l.sched.current = k.sched.current
        ∧ (e.isTick = true → l.readySlots ≠ [])) k [.tick 0] k'
      ∧ 1 ≤ k.sched.remainingQuantum
      ∧ (([Event.tick 0].countP Event.isTick : ℕ) : ℤ) ≤ k.sched.getQuantum k.sched.current := by
  obtain ⟨k, hst, hf, -⟩ := exists_first_fork Machine.sample 0
  obtain ⟨k', hst'⟩ := Kernel.exists_tick hf 0
  have hreach : Reachable Machine.sample k := ⟨_, Run.single trivial hst⟩
  have hready : k.readySlots ≠ [] := by
    rw [Kernel.readySlots_eq hf.threads]
    decide
  have hrun : Run Kernel.step (fun l e => l.sched.current = k.sched.current
      ∧ (e.isTick = true → l.readySlots ≠ [])) k [.tick 0] k' :=
    Run.single ⟨rfl, fun _ => hready⟩ hst'
  obtain ⟨hbounds, hticks⟩ := quantum_discipline Machine.sample
  exact ⟨k, k', hrun, (hbounds k hreach).1, hticks k _ k' hreach hrun⟩

end ZeOS.Practica
