import ZeOS.Practica.Accounts

/-!
# Where the time goes

The code learns the time where it reads the clock, and charges the time since
the last reading for a process to the mode it takes the process to be in.
Interrupts and exceptions read the clock on the way in and on the way out.
`system_call_handler` does neither, and neither does the return of `main` to
the first process. So the counters agree with the accounts exactly in the
runs in which no time passes where the clock is not read.
-/

namespace ZeOS.Practica

/-! ## Steps -/

/-- Identifiers are given out in order. -/
theorem Outcome.lastPid_le {a a' : Schedule} {m m' : Mm} {e : Event} (h : Outcome a m e a' m') :
    a.lastPid ≤ a'.lastPid := by
  cases h with
  | switch | yield => exact le_of_eq a.rotate_eq.2.2.2.1.symm
  | forkOk => exact le_of_lt (Int.lt_add_one_iff.mpr le_rfl)
  | _ => exact le_rfl

theorem Schedule.head?_of_ready {a : Schedule} (h : a.ready ≠ []) :
    a.ready.head? = some a.rotate.current := by
  obtain ⟨c, cs, hready⟩ := List.exists_cons_of_ne_nil h
  rw [a.rotate_eq.2.2.2.2.2, hready]
  rfl

/-- After a process has run, a process runs. -/
theorem Schedule.rotate_current_ne_idle {a : Schedule} (hbusy : a.current ≠ a.idle) :
    a.rotate.current ≠ a.rotate.idle := by
  by_cases hready : a.ready = []
  · rw [Schedule.rotate_eq_self hready]
    exact hbusy
  · intro he
    have hmem : a.rotate.current ∈ a.ready :=
      List.mem_of_mem_head? (by rw [head?_of_ready hready]; rfl)
    rw [he, a.rotate_eq.2.1] at hmem
    exact a.idle_notMem.2 hmem

/-! ## Whom an event dispatches -/

namespace Kernel

variable {k : Kernel} {a : Schedule}

theorem next_tick (hf : k.Follows a) (ebp : DWord) :
    k.next (.tick ebp) = if k.sched.remainingQuantum = 1 ∧ a.ready ≠ [] then
      some a.rotate.current else none := by
  simp only [next, readySlots_eq hf.threads]
  by_cases hq : k.sched.remainingQuantum = 1
  · by_cases hready : a.ready = []
    · rw [if_pos hq, if_neg (fun hc => hc.2 hready), hready]
      rfl
    · rw [if_pos hq, if_pos ⟨hq, hready⟩, Schedule.head?_of_ready hready]
  · rw [if_neg hq, if_neg (fun hc => hq hc.1)]

theorem next_yield (hf : k.Follows a) (ebp : DWord) :
    k.next (.yield ebp) = some a.rotate.current := by
  simp only [next, readySlots_eq hf.threads, hf.threads.current_eq]
  rw [a.rotate_eq.2.2.2.2.2]
  cases a.ready <;> rfl

theorem next_exit (hf : k.Follows a) (hidle : a.current ≠ a.idle) (ebp : DWord) :
    k.next (.exit ebp) = some (a.retire hidle).current := by
  simp only [next, readySlots_eq hf.threads, hf.threads.idle_eq]
  rfl

end Kernel

namespace Timed

variable {M : Machine} {t t' : Timed} {k' : Kernel} {a a' : Schedule} {x : Timing} {p : Slot}

/-- **The accounts of all processes are kept.** -/
def Balanced (t : Timed) (a : Schedule) : Prop :=
  ∀ p, a.Live p → p ≠ a.idle → t.kernel.sched.books.Kept t.ledger p

theorem attributed_iff (hf : t.kernel.Follows a) :
    t.Attributed ↔ ∀ p, a.Live p → p ≠ a.idle →
      (t.kernel.sched.books.stats p).Matches (t.ledger p) := by
  unfold Attributed
  rw [hf.threads.idle_eq]
  refine forall_congr' fun p => ?_
  rw [Kernel.live_iff hf.threads]
  exact Iff.rfl

theorem Balanced.attributed (hf : t.kernel.Follows a) (h : t.Balanced a) : t.Attributed :=
  (attributed_iff hf).mpr fun p hp hi => (h p hp hi).1

/-- An interrupt that switches to no other task. -/
theorem kept_interrupt {k : Kernel} {l : Ledger} (h : k.sched.books.Kept l p) :
    k.interrupted.leave.books.Kept (k.interruptVisit l) p := by
  have hbooks : k.interrupted.leave.books
      = ((k.sched.books.mark k.sched.current .interruptHandler).charge k.sched.current
          .userTicks).charge k.sched.current .systemTicks := by
    rw [Sched.books_leave, k.current_interrupted]
    have hin : k.interrupted.books
        = (k.sched.books.mark k.sched.current .interruptHandler).charge k.sched.current
          .userTicks := by
      rw [Kernel.interrupted, Sched.userToSystem, Sched.books_updateStats, Sched.books_enter]
      rfl
    rw [hin, Books.close]
    have hmark : ((k.sched.books.mark k.sched.current .interruptHandler).charge
        k.sched.current .userTicks).epilogue k.sched.current = .interruptHandler :=
      Function.update_self _ _ _
    rw [hmark]
  rw [hbooks]
  have hmark : (k.sched.books.mark k.sched.current .interruptHandler).Kept l p := h
  exact (hmark.charge k.sched.current .userTicks).charge k.sched.current .systemTicks

/-- A system call that returns to its caller has read no clock. -/
theorem stats_call {s : Sched} {k : Kernel} (hcur : s.current = k.sched.current)
    (hep : s.books.epilogue k.sched.current = .systemCallHandler) :
    s.leave.books.stats = s.books.stats := by
  rw [Sched.books_leave, hcur, Books.close, hep]

/-- Such a call by a process whose account is kept is found right exactly if
no time has passed. -/
theorem punctual_of_visit {b b' : Books} {l : Ledger} {c : Slot} {enter leave : DWord}
    (h : b.Kept l c) (hst : Books.SameTimes (b.stats c) (b'.stats c))
    (hm : (b'.stats c).Matches (l.visit c enter leave c)) :
    enter = (l c).since ∧ leave = enter := by
  have huser := hm.1
  rw [hst.1, Ledger.visit, Ledger.upTo_user (by simp), Ledger.upTo_self, h.1.1] at huser
  replace huser : (l c).user = (l c).user + (enter - (l c).since) := huser
  have henter : enter = (l c).since := by bv_omega
  refine ⟨henter, ?_⟩
  have hsys := hm.2.1
  rw [hst.2.1, Ledger.visit, henter, Ledger.upTo_since, Ledger.upTo_self, h.1.2.1] at hsys
  replace hsys : (l c).system = (l c).system + (leave - (l c).since) := hsys
  rw [henter]
  bv_omega

theorem visit_of_punctual {l : Ledger} {c : Slot} {enter leave : DWord}
    (h : enter = (l c).since ∧ leave = enter) : l.visit c enter leave = l := by
  rw [Ledger.visit, h.2, h.1, Ledger.upTo_since, Ledger.upTo_since]

/-- **A call that returns to its caller.** A process it has made comes with an
account of its own. -/
theorem settle_call (hb : t.Balanced a) (hf' : k'.Follows a') {c : Slot} {enter leave : DWord}
    {l' : Ledger} (hc : a'.Live c ∧ c ≠ a'.idle)
    (hold : ∀ p, a'.Live p → p ≠ a'.idle →
      a.Live p ∧ p ≠ a.idle
          ∧ Books.SameTimes (t.kernel.sched.books.stats p) (k'.sched.books.stats p)
          ∧ l' p = t.ledger.visit c enter leave p
        ∨ p ≠ c ∧ k'.sched.books.Kept l' p) :
    (enter = (t.ledger c).since ∧ leave = enter → Balanced ⟨k', l'⟩ a')
      ∧ (Attributed ⟨k', l'⟩ → enter = (t.ledger c).since ∧ leave = enter) := by
  constructor
  · intro hp p hlive hidle
    rcases hold p hlive hidle with ⟨hl, hi, hst, heq⟩ | ⟨-, hk⟩
    · rw [visit_of_punctual hp] at heq
      exact (hb p hl hi).congr hst heq
    · exact hk
  · intro hatt
    have hm := (attributed_iff hf').mp hatt c hc.1 hc.2
    rcases hold c hc.1 hc.2 with ⟨hl, hi, hst, heq⟩ | ⟨hne, -⟩
    · dsimp only at hm
      rw [heq] at hm
      exact punctual_of_visit (hb c hl hi) hst hm
    · exact absurd rfl hne

/-- The statistics after a call that leaves the scheduler alone. -/
theorem stats_entered_leave (k : Kernel) : k.entered.sched.leave.books.stats
    = k.sched.books.stats := by
  have hep : k.entered.sched.books.epilogue k.sched.current = .systemCallHandler := by
    rw [Kernel.entered, Sched.books_enter]
    exact Function.update_self _ _ _
  rw [stats_call rfl hep, Kernel.entered, Sched.books_enter]
  rfl

/-- `sys_get_stats` writes down what is left of the quantum. -/
theorem sameTimes_getStats (k : Kernel) (pid st : DWord) (p : Slot) :
    Books.SameTimes (k.sched.books.stats p)
      ((k.entered.sysGetStats pid st).2.sched.leave.books.stats p) := by
  have hcur : (k.entered.sysGetStats pid st).2.sched.current = k.sched.current :=
    (Kernel.ramOnly_sysGetStats k.entered pid st).2.current
  have hres : (k.entered.sysGetStats pid st).2.sched.books.epilogue = k.entered.sched.books.epilogue
      ∧ Books.SameTimes (k.entered.sched.books.stats p)
        ((k.entered.sysGetStats pid st).2.sched.books.stats p) := by
    unfold Kernel.sysGetStats
    split
    · exact ⟨rfl, Books.SameTimes.refl _⟩
    · split
      · exact ⟨rfl, Books.SameTimes.refl _⟩
      · split
        · rename_i i _
          constructor
          · funext u
            show (if u = i then _ else _ : TaskStruct).epilogue = _
            split_ifs <;> rfl
          · show Books.SameTimes _ (if p = i then _ else _ : TaskStruct).pStats
            split_ifs
            · exact ⟨rfl, rfl, rfl, rfl⟩
            · exact Books.SameTimes.refl _
        · exact ⟨rfl, Books.SameTimes.refl _⟩
  have hep : (k.entered.sysGetStats pid st).2.sched.books.epilogue k.sched.current
      = .systemCallHandler := by
    rw [hres.1, Kernel.entered, Sched.books_enter]
    exact Function.update_self _ _ _
  rw [stats_call hcur hep]
  have h := hres.2
  rw [Kernel.entered, Sched.books_enter] at h
  exact h

/-- **A dispatch.** The accounts before it may be wrong for the task that
goes, if it has come by a call. -/
theorem settle_dispatch {b : Books} {l : Ledger} {c new : Slot} (leave : DWord)
    (hf' : k'.Follows a') (hbooks : k'.sched.books = (b.handOver c new).close new) {G : Prop}
    (hgood : G → ∀ p, a'.Live p → p ≠ a'.idle → b.Kept l p)
    (hbad : (k'.sched.books.stats c).userTicks = (l c).user → a'.Live c → c ≠ a'.idle → G)
    (hgone : ¬ (a'.Live c ∧ c ≠ a'.idle) → G) (hnew : a'.Live new) :
    (G ∧ (new ≠ a'.idle → b.epilogue new ≠ .interruptHandler → leave = b.ticks 1) →
        Balanced ⟨k', l.dispatch c new b.ticks (b.epilogue new) leave⟩ a')
      ∧ (Attributed ⟨k', l.dispatch c new b.ticks (b.epilogue new) leave⟩ →
        G ∧ (new ≠ a'.idle → b.epilogue new ≠ .interruptHandler → leave = b.ticks 1)) := by
  constructor
  · rintro ⟨hG, hprompt⟩ p hlive hidle
    show k'.sched.books.Kept _ p
    rw [hbooks]
    exact (hgood hG p hlive hidle).dispatch c new (fun hp => hprompt (hp ▸ hidle))
  · intro hatt
    rw [attributed_iff hf'] at hatt
    have hG : G := by
      by_cases hc : a'.Live c ∧ c ≠ a'.idle
      · refine hbad ?_ hc.1 hc.2
        have hm := (hatt c hc.1 hc.2).1
        rwa [Ledger.dispatch, Ledger.upTo_user (by simp), Ledger.upTo_user (by simp),
          Ledger.upTo_user (by simp)] at hm
      · exact hgone hc
    refine ⟨hG, fun hidle he => ?_⟩
    have hm := hatt new hnew hidle
    dsimp only at hm
    rw [hbooks] at hm
    exact (hgood hG new hnew hidle).prompt c he hm

/-- The reading of `update_process_state_rr` is between two charges to the
same counter. -/
theorem dispatch_upTo {l : Ledger} {c new : Slot} {now leave : DWord} {ticks : ℕ → DWord}
    {e : Epilogue} : (l.upTo c now .systemTicks).dispatch c new ticks e leave
      = l.dispatch c new ticks e leave := by
  rw [Ledger.dispatch, Ledger.upTo_upTo]
  rfl

theorem books_interrupted (k : Kernel) : k.interrupted.books
    = (k.sched.books.mark k.sched.current .interruptHandler).charge k.sched.current
      .userTicks := by
  rw [Kernel.interrupted, Sched.userToSystem, Sched.books_updateStats, Sched.books_enter]
  rfl

theorem books_entered (k : Kernel) : k.entered.sched.books
    = k.sched.books.mark k.sched.current .systemCallHandler := Sched.books_enter _ _

/-- The books after `schedule`, called by the clock. -/
theorem books_interrupted_schedule {k : Kernel} (hf : k.Follows a) (ebp : DWord) :
    (k.interrupted.schedule ebp).books
      = if k.sched.remainingQuantum = 1 ∧ a.ready ≠ [] then
          (k.interrupted.books.charge k.sched.current .systemTicks).handOver k.sched.current
            a.rotate.current
        else k.interrupted.books := by
  rw [Sched.books_schedule (s := k.interrupted) (Kernel.threads_interrupt hf.threads)
      hf.interrupted_down,
    k.sameQuanta_interrupted.remaining, k.current_interrupted]

/-- **A tick that switches.** -/
theorem settle_switch (hf : t.kernel.Follows a) (hb : t.Balanced a) {ebp : DWord}
    (hst : t.kernel.step (.tick ebp) = some k')
    (hsw : t.kernel.sched.remainingQuantum = 1 ∧ a.ready ≠ []) (leave : DWord) :
    k'.Follows a.rotate
      ∧ (t.Prompt a.rotate.current (t.kernel.sched.ticks 3) leave →
          Balanced ⟨k', t.kernel.dispatched (t.ledger.upTo t.kernel.sched.current
            (t.kernel.sched.ticks 0) .userTicks) 2 a.rotate.current leave⟩ a.rotate)
      ∧ (Attributed ⟨k', t.kernel.dispatched (t.ledger.upTo t.kernel.sched.current
            (t.kernel.sched.ticks 0) .userTicks) 2 a.rotate.current leave⟩ →
          t.Prompt a.rotate.current (t.kernel.sched.ticks 3) leave) := by
  set k := t.kernel with hk
  have hcur := hf.threads.current_eq
  have hf' : k'.Follows a.rotate := by
    have h := Kernel.follows_tick hf hst
    rwa [if_pos hsw] at h
  set b := k.interrupted.books.charge k.sched.current .systemTicks with hbdef
  have hbooks : k'.sched.books = (b.handOver k.sched.current a.rotate.current).close
      a.rotate.current := by
    have hsched := books_interrupted_schedule hf ebp
    rw [if_pos hsw] at hsched
    have hnext : (k.interrupted.schedule ebp).current = a.rotate.current := by
      have h := hf'.threads.current_eq
      rwa [Kernel.sched_of_step hst, Kernel.schedAfter, (Sched.same_leave _).current] at h
    rw [Kernel.sched_of_step hst, Kernel.schedAfter, Sched.books_leave, hsched, hnext]
  have hticks : b.ticks = fun i => k.sched.ticks (2 + i) := by
    funext i
    rw [hbdef, books_interrupted, Nat.add_comm 2 i]
    rfl
  have hep : b.epilogue a.rotate.current = k.epilogueOf a.rotate.current := by
    have hne : a.rotate.current ≠ k.sched.current := hcur ▸ Schedule.rotate_current_ne hsw.2
    show b.epilogue a.rotate.current = k.entered.sched.books.epilogue a.rotate.current
    rw [hbdef, books_interrupted, books_entered]
    show Function.update _ _ _ _ = Function.update _ _ _ _
    rw [Function.update_of_ne hne, Function.update_of_ne hne]
  have hkept : ∀ p, a.rotate.Live p → p ≠ a.rotate.idle →
      b.Kept ((t.ledger.upTo k.sched.current (k.sched.ticks 0) .userTicks).upTo k.sched.current
        (k.sched.ticks 1) .systemTicks) p := by
    intro p hlive hidle
    rw [hbdef, books_interrupted]
    have h : (k.sched.books.mark k.sched.current .interruptHandler).Kept t.ledger p :=
      hb p ((a.live_rotate p).mp hlive) (a.rotate_eq.2.1 ▸ hidle)
    exact (h.charge k.sched.current .userTicks).charge k.sched.current .systemTicks
  obtain ⟨h₁, h₂⟩ := settle_dispatch (G := True) leave hf' hbooks (fun _ => hkept)
    (fun _ _ _ => trivial) (fun _ => trivial) a.rotate.live_current
  have hbusy : a.current ≠ a.idle := fun hi => hsw.2 (a.idle_alone hi)
  rw [dispatch_upTo, hticks, hep] at h₁ h₂
  refine ⟨hf', fun hp => h₁ ⟨trivial, fun _ he => hp he⟩, fun hatt he => ?_⟩
  exact (h₂ hatt).2 (Schedule.rotate_current_ne_idle hbusy) he

/-- **A yield.** -/
theorem settle_yield (hf : t.kernel.Follows a) (hb : t.Balanced a) (hbusy : a.current ≠ a.idle)
    {ebp : DWord} (hst : t.kernel.step (.yield ebp) = some k') (hf' : k'.Follows a.rotate)
    (enter leave : DWord) :
    (enter = (t.ledger t.kernel.sched.current).since
        ∧ t.Prompt a.rotate.current (t.kernel.sched.ticks 2) leave →
      Balanced ⟨k', t.kernel.dispatched (t.ledger.upTo t.kernel.sched.current enter .userTicks) 1
        a.rotate.current leave⟩ a.rotate)
      ∧ (Attributed ⟨k', t.kernel.dispatched (t.ledger.upTo t.kernel.sched.current enter
          .userTicks) 1 a.rotate.current leave⟩ →
        enter = (t.ledger t.kernel.sched.current).since
          ∧ t.Prompt a.rotate.current (t.kernel.sched.ticks 2) leave) := by
  set k := t.kernel with hk
  set c := k.sched.current with hc
  have hcur : c = a.current := hf.threads.current_eq
  have hlive : ∀ p, a.rotate.Live p → p ≠ a.rotate.idle → a.Live p ∧ p ≠ a.idle :=
    fun p h hi => ⟨(a.live_rotate p).mp h, a.rotate_eq.2.1 ▸ hi⟩
  have hclive : a.rotate.Live c ∧ c ≠ a.rotate.idle := by
    rw [hcur, a.rotate_eq.2.1]
    exact ⟨(a.live_rotate _).mpr a.live_current, hbusy⟩
  set b := k.entered.sched.books.charge c .systemTicks with hbdef
  have hbooks : k'.sched.books = (b.handOver c a.rotate.current).close a.rotate.current := by
    have h := hf'.threads.current_eq
    rw [Kernel.sched_of_step hst, Kernel.schedAfter, (Sched.same_leave _).current] at h
    rw [Kernel.sched_of_step hst, Kernel.schedAfter, Sched.books_leave, h,
      Sched.books_forceTaskSwitch hf.entered.threads hf.entered.sched_down]
    rfl
  have hticks : b.ticks = fun i => k.sched.ticks (1 + i) := by
    funext i
    rw [hbdef, books_entered, Nat.add_comm 1 i]
    rfl
  have hep : b.epilogue a.rotate.current = k.epilogueOf a.rotate.current := rfl
  -- with no time in user mode the account is kept up to the first reading
  have hkept : enter = (t.ledger c).since → ∀ p, a.rotate.Live p → p ≠ a.rotate.idle →
      b.Kept ((t.ledger.upTo c enter .userTicks).upTo c (k.sched.ticks 0) .systemTicks) p := by
    intro henter p hp hi
    rw [henter, Ledger.upTo_since, hbdef, books_entered]
    have h : (k.sched.books.mark c .systemCallHandler).Kept t.ledger p :=
      hb p (hlive p hp hi).1 (hlive p hp hi).2
    exact h.charge c .systemTicks
  have huser : (k'.sched.books.stats c).userTicks
      = ((t.ledger.upTo c enter .userTicks).upTo c (k.sched.ticks 0) .systemTicks c).user →
      enter = (t.ledger c).since := by
    intro h
    have hbu : (b.stats c).userTicks = (k.sched.books.stats c).userTicks := by
      rw [hbdef, books_entered, Books.charge]
      dsimp only
      rw [Function.update_self]
      rfl
    rw [hbooks, Books.userTicks_handOver_close, hbu, Ledger.upTo_user (by simp),
      Ledger.upTo_self, (hb c (hlive c hclive.1 hclive.2).1 (hlive c hclive.1 hclive.2).2).1.1] at h
    replace h : (t.ledger c).user = (t.ledger c).user + (enter - (t.ledger c).since) := h
    bv_omega
  obtain ⟨h₁, h₂⟩ := settle_dispatch leave hf' hbooks hkept
    (fun h _ _ => huser h) (fun h => absurd hclive h) a.rotate.live_current
  rw [dispatch_upTo, hticks, hep] at h₁ h₂
  refine ⟨fun hp => h₁ ⟨hp.1, fun _ he => hp.2 he⟩, fun hatt => ⟨(h₂ hatt).1, fun he => ?_⟩⟩
  exact (h₂ hatt).2 (Schedule.rotate_current_ne_idle hbusy) he

/-- **An exit.** What becomes of the account of the process that goes does
not matter. -/
theorem settle_exit (hf : t.kernel.Follows a) (hb : t.Balanced a) (hbusy : a.current ≠ a.idle)
    {ebp : DWord} (hst : t.kernel.step (.exit ebp) = some k') (hf' : k'.Follows (a.retire hbusy))
    (enter leave : DWord) :
    (((a.retire hbusy).current ≠ a.idle →
        t.Prompt (a.retire hbusy).current (t.kernel.sched.ticks 1) leave) →
      Balanced ⟨k', t.kernel.dispatched (t.ledger.upTo t.kernel.sched.current enter .userTicks) 0
        (a.retire hbusy).current leave⟩ (a.retire hbusy))
      ∧ (Attributed ⟨k', t.kernel.dispatched (t.ledger.upTo t.kernel.sched.current enter
          .userTicks) 0 (a.retire hbusy).current leave⟩ →
        (a.retire hbusy).current ≠ a.idle →
          t.Prompt (a.retire hbusy).current (t.kernel.sched.ticks 1) leave) := by
  set k := t.kernel with hk
  set c := k.sched.current with hc
  have hcur : c = a.current := hf.threads.current_eq
  have hcgone : ∀ p, (a.retire hbusy).Live p → p ≠ c ∧ a.Live p := by
    intro p hp
    rw [Schedule.live_iff, Schedule.mem_free_retire] at hp
    exact ⟨fun he => hp (Or.inr (he.trans hcur)), (a.live_iff p).mpr fun h => hp (Or.inl h)⟩
  set b := k.entered.sched.books with hbdef
  have hbooks : k'.sched.books = (b.handOver c (a.retire hbusy).current).close
      (a.retire hbusy).current := by
    have hdown := (Kernel.step_eq_some_iff.mp hst).2.2.2.1
    have h := hf'.threads.current_eq
    rw [Kernel.sched_of_step hst, Kernel.schedAfter] at hdown h ⊢
    rw [(Sched.same_leave _).stuck] at hdown
    rw [(Sched.same_leave _).current] at h
    have hpre : ((k.entered.sched.linkTail (.task k.entered.sched.current) .freequeue).modifyTask
        (k.entered.sched.linkTail (.task k.entered.sched.current) .freequeue).current
        (fun c => { c with pid := -1 })).books = b := by
      rw [Sched.books_modifyTask _ _ (fun c => { c with pid := -1 }) fun _ => ⟨rfl, rfl⟩,
        Sched.books_linkTail]
    have hccur : (k.entered.sched.linkTail (.task k.entered.sched.current) .freequeue).current
        = c := by
      unfold Sched.linkTail
      split <;> rfl
    rw [Sched.books_leave, h]
    rw [Kernel.sysExit] at hdown h ⊢
    dsimp only at hdown h ⊢
    rw [Sched.books_schedNextRr _ ebp hdown, hpre, h]
    show (b.handOver (k.entered.sched.linkTail (.task k.entered.sched.current)
      .freequeue).current _).close _ = _
    rw [hccur]
  have hticks : b.ticks = fun i => k.sched.ticks (0 + i) := by
    funext i
    rw [hbdef, books_entered, Nat.zero_add]
    rfl
  have hep : b.epilogue (a.retire hbusy).current = k.epilogueOf (a.retire hbusy).current := rfl
  have hkept : ∀ p, (a.retire hbusy).Live p → p ≠ (a.retire hbusy).idle →
      b.Kept (t.ledger.upTo c enter .userTicks) p := by
    intro p hp hi
    obtain ⟨hne, hlive⟩ := hcgone p hp
    rw [hbdef, books_entered]
    have h : (k.sched.books.mark c .systemCallHandler).Kept t.ledger p := hb p hlive hi
    exact h.upTo_of_ne hne
  obtain ⟨h₁, h₂⟩ := settle_dispatch (G := True) leave hf' hbooks (fun _ => hkept)
    (fun _ _ _ => trivial) (fun _ => trivial) (a.retire hbusy).live_current
  rw [hticks, hep] at h₁ h₂
  exact ⟨fun hp => h₁ ⟨trivial, fun hi he => hp hi he⟩, fun hatt hi he => (h₂ hatt).2 hi he⟩

/-- The books after a fork, of the slots that were not free. -/
theorem stats_sysFork (hf : t.kernel.Follows a) {c : Slot} {cs : List Slot}
    (hfree : a.free = c :: cs) (ebp : DWord) :
    ((t.kernel.entered.sysFork ebp).2.sched.leave.books.stats c
        = { elapsedTotalTicks := t.kernel.sched.ticks 0, remainingTicks := t.kernel.sched.ticks 1 }
      ∨ ¬ 0 < (t.kernel.entered.sysFork ebp).1)
    ∧ ∀ p, p ≠ c → (t.kernel.entered.sysFork ebp).2.sched.leave.books.stats p
      = t.kernel.sched.books.stats p := by
  obtain ⟨h', hres, -, -⟩ := Sched.reserve_spec hf.entered.threads hfree
  have hcc : a.current ≠ c := fun he => a.current_notMem.1 (hfree ▸ he ▸ List.mem_cons_self)
  have hcur : t.kernel.sched.current = a.current := hf.threads.current_eq
  -- the struct of the parent, entered, is what is copied
  have hep : ((t.kernel.entered.sched.reserve c).books.epilogue t.kernel.sched.current)
      = .systemCallHandler := by
    rw [hres, hcur]
    simp only [Sched.books, if_neg hcc]
    simp only [Kernel.entered, Sched.enter, Sched.modifyTask, hcur, if_true]
  have hold : ∀ p, p ≠ c → (t.kernel.entered.sched.reserve c).books.stats p
      = t.kernel.sched.books.stats p := by
    intro p hp
    rw [hres]
    simp only [Sched.books, if_neg hp, Kernel.entered, Sched.enter, Sched.modifyTask]
    split_ifs <;> rfl
  have hcur' : (t.kernel.entered.sched.reserve c).current = t.kernel.sched.current := by
    rw [hres]
    rfl
  have hticks : (t.kernel.entered.sched.reserve c).ticks = t.kernel.sched.ticks := by
    rw [hres]
    rfl
  set s := t.kernel.entered.sched.reserve c with hs
  have hchild : (s.startChild ebp c).books = { s.books with
      stats := Function.update s.books.stats c
        { elapsedTotalTicks := s.ticks 0, remainingTicks := s.ticks 1 }
      ticks := fun n => s.ticks (n + 2) } := by
    unfold Sched.startChild
    dsimp only
    rw [Sched.books_linkTail, Sched.books_modifyTask _ c (fun c => { c with state := .ready })
      fun _ => ⟨rfl, rfl⟩]
    simp only [Sched.books, Sched.initStats, Sched.getTicks, Sched.modifyTask, Sched.setCr3,
      Books.mk.injEq, and_true]
    refine ⟨?_, ?_⟩
    · funext u
      rw [Function.update_apply]
      split_ifs <;> rfl
    · funext u
      split_ifs <;> rfl
  rw [Kernel.sysFork_cons hf.entered.threads hfree]
  split
  · -- given up
    have hbooks : (s.linkTail (.task c) .freequeue).books = s.books := Sched.books_linkTail _ _ _
    have hst : (s.linkTail (.task c) .freequeue).leave.books.stats = s.books.stats := by
      rw [stats_call (k := t.kernel) ?_ (hbooks ▸ hep), hbooks]
      unfold Sched.linkTail
      split <;> exact hcur'
    exact ⟨Or.inr (by decide : ¬ 0 < -eAGAIN), fun p hp => (congrFun hst p).trans (hold p hp)⟩
  · have hcc' : (s.startChild ebp c).current = t.kernel.sched.current := by
      have h : (s.startChild ebp c).current = s.current := by
        unfold Sched.startChild
        dsimp only
        unfold Sched.linkTail
        split <;> rfl
      exact h.trans hcur'
    have hst : (s.startChild ebp c).leave.books.stats = (s.startChild ebp c).books.stats :=
      stats_call (k := t.kernel) hcc' (by rw [hchild]; exact hep)
    dsimp only
    rw [hst, hchild]
    refine ⟨Or.inl ?_, fun p hp => ?_⟩
    · dsimp only
      rw [Function.update_self, hticks]
    · dsimp only
      rw [Function.update_of_ne hp]
      exact hold p hp

/-- **A fork.** Whatever becomes of the slot that was taken, a child has its
account open since the reading of `init_stats`. -/
theorem settle_fork (hf : t.kernel.Follows a) (hb : t.Balanced a) (hbusy : a.current ≠ a.idle)
    (hlast : 0 ≤ a.lastPid) {ebp : DWord} (hst : t.kernel.step (.fork ebp) = some k')
    (enter leave : DWord) :
    ∃ a', k'.Follows a' ∧ 0 ≤ a'.lastPid
      ∧ (enter = (t.ledger t.kernel.sched.current).since ∧ leave = enter →
        Balanced ⟨k', t.kernel.account t.ledger ⟨.event (.fork ebp), enter, leave⟩⟩ a')
      ∧ (Attributed ⟨k', t.kernel.account t.ledger ⟨.event (.fork ebp), enter, leave⟩⟩ →
        enter = (t.ledger t.kernel.sched.current).since ∧ leave = enter) := by
  obtain ⟨a', hf', ho, -⟩ := hf.step hst
  refine ⟨a', hf', hlast.trans ho.lastPid_le, ?_⟩
  have hsched := Kernel.sched_of_step hst
  simp only [Kernel.schedAfter] at hsched
  have hcur := hf.threads.current_eq
  generalize k'.mm = m' at ho
  simp only [Kernel.account, Kernel.freeSlots_eq hf.threads]
  cases ho with
  | forkNone ebp hfree =>
    have hres := Kernel.sysFork_none hf.entered.threads hfree ebp
    rw [hfree]
    refine settle_call hb hf' ⟨hcur ▸ a.live_current, hcur ▸ hbusy⟩ (fun p hp hi => Or.inl ?_)
    refine ⟨hp, hi, ?_, rfl⟩
    rw [hsched, hres, stats_entered_leave]
    exact Books.SameTimes.refl _
  | forkFail ebp c cs hfree hlen =>
    obtain ⟨s', hres, -⟩ := Kernel.sysFork_fail hf.entered.threads hfree hlen ebp
    have hneg : ¬ 0 < (t.kernel.entered.sysFork ebp).1 := by
      rw [hres]
      exact (by decide : ¬ 0 < -eAGAIN)
    rw [hfree]
    simp only [List.head?_cons, if_neg hneg]
    have hlive : ∀ p, (a.giveUp c cs hfree).Live p ↔ a.Live p := fun p => by
      rw [Schedule.live_iff, Schedule.live_iff, Schedule.mem_free_giveUp]
    refine settle_call hb hf' ⟨hcur ▸ (hlive _).mpr a.live_current, hcur ▸ hbusy⟩
      (fun p hp hi => Or.inl ?_)
    have hpc : p ≠ c := by
      rintro rfl
      exact (a.live_iff p).mp ((hlive p).mp hp) (hfree ▸ List.mem_cons_self)
    refine ⟨(hlive p).mp hp, hi, ?_, rfl⟩
    rw [hsched, (stats_sysFork hf hfree ebp).2 p hpc]
    exact Books.SameTimes.refl _
  | forkOk ebp c cs hfree hidle hlen =>
    obtain ⟨s', hres, hth, -⟩ := Kernel.sysFork_ok hf.entered.threads hfree hidle hlen ebp
    obtain ⟨hchild, hother⟩ := stats_sysFork hf hfree ebp
    rw [hfree]
    simp only [List.head?_cons]
    have hpos : 0 < (t.kernel.entered.sysFork ebp).1 := by
      rw [hres]
      exact Int.lt_add_one_iff.mpr hlast
    simp only [if_pos hpos]
    have hcc : a.current ≠ c := fun he => a.current_notMem.1 (hfree ▸ he ▸ List.mem_cons_self)
    have hlive : ∀ p, (a.spawn c cs hfree hidle).Live p → p ≠ c → a.Live p := by
      intro p hp hne
      rw [Schedule.live_iff] at hp ⊢
      rw [hfree, List.mem_cons]
      exact fun hm => hm.elim hne hp
    refine settle_call hb hf' (c := t.kernel.sched.current) ⟨?_, hcur ▸ hbusy⟩ (fun p hp hi => ?_)
    · rw [hcur]
      exact Or.inl rfl
    · by_cases hpc : p = c
      · subst hpc
        refine Or.inr ⟨fun he => hcc (hcur.symm.trans he.symm), ?_⟩
        rw [Books.Kept, hsched, hchild.resolve_right (not_not.mpr hpos), Function.update_self]
        exact ⟨⟨rfl, rfl, rfl⟩, rfl⟩
      · refine Or.inl ⟨hlive p hp hpc, hi, ?_, Function.update_of_ne hpc _ _⟩
        rw [hsched, hother p hpc]
        exact Books.SameTimes.refl _

/-- An interrupt that switches to no other task. -/
theorem settle_interrupt (hb : t.Balanced a)
    (hbooks : k'.sched.books = t.kernel.interrupted.leave.books) :
    Balanced ⟨k', t.kernel.interruptVisit t.ledger⟩ a := by
  intro p hp hi
  show k'.sched.books.Kept _ p
  rw [hbooks]
  exact kept_interrupt (hb p hp hi)

/-- A step that leaves the scheduler alone. -/
theorem settle_same (hb : t.Balanced a) (hsched : k'.sched = t.kernel.sched) :
    Balanced ⟨k', t.ledger⟩ a := by
  intro p hp hi
  show k'.sched.books.Kept t.ledger p
  rw [hsched]
  exact hb p hp hi

/-- A call that does nothing to the counters. -/
theorem settle_visit (hf : t.kernel.Follows a) (hb : t.Balanced a) (hbusy : a.current ≠ a.idle)
    (hf' : k'.Follows a)
    (hstats : ∀ p, Books.SameTimes (t.kernel.sched.books.stats p) (k'.sched.books.stats p))
    (enter leave : DWord) :
    (enter = (t.ledger t.kernel.sched.current).since ∧ leave = enter →
        Balanced ⟨k', t.ledger.visit t.kernel.sched.current enter leave⟩ a)
      ∧ (Attributed ⟨k', t.ledger.visit t.kernel.sched.current enter leave⟩ →
        enter = (t.ledger t.kernel.sched.current).since ∧ leave = enter) := by
  have hcur := hf.threads.current_eq
  exact settle_call hb hf' ⟨hcur ▸ a.live_current, hcur ▸ hbusy⟩
    (fun p hp hi => Or.inl ⟨hp, hi, hstats p, rfl⟩)

/-- **A tick**, whether or not it switches. -/
theorem settle_tick (hf : t.kernel.Follows a) (hb : t.Balanced a) {ebp : DWord}
    (hst : t.kernel.step (.tick ebp) = some k') (enter leave : DWord) :
    (t.Punctual ⟨.event (.tick ebp), enter, leave⟩ →
        Balanced ⟨k', t.kernel.account t.ledger ⟨.event (.tick ebp), enter, leave⟩⟩
          (if t.kernel.sched.remainingQuantum = 1 ∧ a.ready ≠ [] then a.rotate else a))
      ∧ (Attributed ⟨k', t.kernel.account t.ledger ⟨.event (.tick ebp), enter, leave⟩⟩ →
        t.Punctual ⟨.event (.tick ebp), enter, leave⟩) := by
  have hf₁ := Kernel.follows_tick hf hst
  have hnext := Kernel.next_tick hf ebp
  by_cases hsw : t.kernel.sched.remainingQuantum = 1 ∧ a.ready ≠ []
  · obtain ⟨-, h₁, h₂⟩ := settle_switch hf hb hst hsw leave
    rw [if_pos hsw] at hnext ⊢
    simp only [Kernel.account, Punctual, hnext, Option.some_inj, forall_eq']
    exact ⟨h₁, h₂⟩
  · rw [if_neg hsw] at hnext hf₁ ⊢
    simp only [Kernel.account, Punctual, hnext]
    refine ⟨fun _ => settle_interrupt hb ?_, fun _ _ hn => absurd hn (by simp)⟩
    have hbooks := books_interrupted_schedule hf ebp
    rw [if_neg hsw] at hbooks
    have hcur := hf₁.threads.current_eq
    rw [Kernel.sched_of_step hst, Kernel.schedAfter, (Sched.same_leave _).current] at hcur
    rw [Kernel.sched_of_step hst, Kernel.schedAfter, Sched.books_leave, Sched.books_leave, hbooks,
      hcur, t.kernel.current_interrupted, hf.threads.current_eq]

/-- A call that leaves the scheduler alone, by whatever number it has. -/
theorem settle_quiet (hf : t.kernel.Follows a) (hb : t.Balanced a) (hbusy : a.current ≠ a.idle)
    (hf' : k'.Follows a) (hsched : k'.sched = t.kernel.entered.sched.leave)
    (enter leave : DWord) :
    (enter = (t.ledger t.kernel.sched.current).since ∧ leave = enter →
        Balanced ⟨k', t.ledger.visit t.kernel.sched.current enter leave⟩ a)
      ∧ (Attributed ⟨k', t.ledger.visit t.kernel.sched.current enter leave⟩ →
        enter = (t.ledger t.kernel.sched.current).since ∧ leave = enter) := by
  refine settle_visit hf hb hbusy hf' (fun p => ?_) enter leave
  rw [hsched, stats_entered_leave]
  exact Books.SameTimes.refl _

/-- **Every act** leaves the statistics right, where they were, exactly if it
is punctual. -/
theorem settle (hf : t.kernel.Follows a) (hb : t.Balanced a) (hlast : 0 ≤ a.lastPid)
    (hst : t.step x = some t') :
    ∃ a', t'.kernel.Follows a' ∧ 0 ≤ a'.lastPid ∧ (t.Punctual x → t'.Balanced a')
      ∧ (t'.Attributed → t.Punctual x) := by
  obtain ⟨k', hk, rfl⟩ := Option.map_eq_some_iff.mp hst
  obtain ⟨act, enter, leave⟩ := x
  cases act with
  | quiet =>
    simp only [Kernel.act] at hk
    split_ifs at hk with hidle
    obtain rfl := Option.some_inj.mp hk
    have hbusy : a.current ≠ a.idle := by
      rwa [hf.threads.current_eq, hf.threads.idle_eq] at hidle
    have hf' : (t.kernel.systemCall id).Follows a :=
      ⟨Kernel.threads_systemCall hf.entered.threads, hf.mm_down,
        (Sched.same_leave _).stuck.trans hf.entered.sched_down, hf.counts_fit⟩
    exact ⟨a, hf', hlast, settle_quiet hf hb hbusy hf' rfl enter leave⟩
  | event e =>
    replace hk : t.kernel.step e = some k' := hk
    obtain ⟨a', hf', ho, hen⟩ := hf.step hk
    have hlast' : 0 ≤ a'.lastPid := hlast.trans ho.lastPid_le
    have hsched := Kernel.sched_of_step hk
    cases e with
    | tick ebp =>
      refine ⟨_, Kernel.follows_tick hf hk, ?_, settle_tick hf hb hk enter leave⟩
      split_ifs
      · exact hlast.trans (le_of_eq a.rotate_eq.2.2.2.1.symm)
      · exact hlast
    | key c past | fault cr2 =>
      generalize k'.mm = m' at ho
      cases ho
      exact ⟨a, hf', hlast, fun _ => settle_interrupt hb (congrArg Sched.books hsched),
        fun _ => trivial⟩
    | load addr =>
      generalize k'.mm = m' at ho
      cases ho
      exact ⟨a, hf', hlast, fun _ => settle_same hb hsched, fun _ => trivial⟩
    | store addr b =>
      have ha : a' = a := by
        generalize k'.mm = m' at ho
        cases ho <;> rfl
      subst ha
      refine ⟨a', hf', hlast, fun _ => ?_, fun _ => trivial⟩
      simp only [Kernel.account]
      simp only [Kernel.schedAfter] at hsched
      split_ifs at hsched ⊢
      · exact settle_same hb hsched
      · exact settle_interrupt hb (congrArg Sched.books hsched)
    | fork ebp => exact settle_fork hf hb (hen rfl) hlast hk enter leave
    | exit ebp =>
      generalize k'.mm = m' at ho
      cases ho with
      | exit ebp hbusy =>
        obtain ⟨h₁, h₂⟩ := settle_exit hf hb hbusy hk hf' enter leave
        have hnext := Kernel.next_exit hf hbusy ebp
        have hidle := hf.threads.idle_eq
        simp only [Kernel.account, Punctual, hnext, Option.some_inj, forall_eq', hidle]
        exact ⟨_, hf', hlast', h₁, h₂⟩
    | yield ebp =>
      generalize k'.mm = m' at ho
      cases ho
      obtain ⟨h₁, h₂⟩ := settle_yield hf hb (hen rfl) hk hf' enter leave
      have hnext := Kernel.next_yield hf ebp
      simp only [Kernel.account, Punctual, hnext, Option.some_inj, forall_eq']
      exact ⟨_, hf', hlast', h₁, h₂⟩
    | shmat id addr | shmdt addr | shmrm id | read b maxchars =>
      generalize k'.mm = m' at ho
      cases ho
      exact ⟨a, hf', hlast, settle_quiet hf hb (hen rfl) hf' hsched enter leave⟩
    | getStats pid st =>
      generalize k'.mm = m' at ho
      cases ho
      refine ⟨a, hf', hlast, settle_visit hf hb (hen rfl) hf' (fun p => ?_) enter leave⟩
      rw [hsched]
      exact sameTimes_getStats t.kernel pid st p

/-- The statistics of the first process at boot. -/
theorem stats_boot (M : Machine) (leave : DWord) : (boot M leave).kernel.sched.books.stats 1
    = { elapsedTotalTicks := M.ticks 2, remainingTicks := M.ticks 3 } := by
  have h : (M.boot.sched.task 1).pStats
      = { elapsedTotalTicks := M.ticks 2, remainingTicks := M.ticks 3 } := rfl
  generalize hs : M.boot.sched = s at h
  simp only [boot, hs]
  exact h

/-- The booted kernel has read the clock for its first process when it
initialized the statistics, and not since. -/
theorem settle_boot (M : Machine) (leave : DWord) :
    (leave = M.ticks 2 → (boot M leave).Balanced bootSchedule)
      ∧ ((boot M leave).Attributed → leave = M.ticks 2) := by
  constructor
  · rintro rfl p hlive hidle
    have hone : p = 1 := by
      revert p
      decide
    subst hone
    rw [Books.Kept, stats_boot]
    exact ⟨⟨rfl, (sub_self _).symm, rfl⟩, rfl⟩
  · intro hatt
    have hm := (attributed_iff (t := boot M leave) (follows_boot M)).mp hatt 1 (by decide)
      (by decide)
    rw [stats_boot] at hm
    replace hm := hm.2.1
    exact sub_eq_zero.mp hm.symm

end Timed

/-- **Where the statistics are right.** In a run from boot the statistics of
every live process are its true totals in every state exactly if no time
passes unread: the first process is entered at the reading of its
`init_stats`, and every act of the run is punctual. -/
theorem attributed_iff_punctual (M : Machine) (leave : DWord) (xs : List Timing) (t : Timed)
    (h : Run Timed.step (fun _ _ => True) (Timed.boot M leave) xs t) :
    (∀ ys zs u, xs = ys ++ zs →
        Run Timed.step (fun _ _ => True) (Timed.boot M leave) ys u → u.Attributed)
      ↔ leave = M.ticks 2
        ∧ Run Timed.step (fun u x => True ∧ u.Punctual x) (Timed.boot M leave) xs t := by
  obtain ⟨hboot, hboot'⟩ := Timed.settle_boot M leave
  by_cases hl : leave = M.ticks 2
  · rw [and_iff_right hl]
    have hb := hboot hl
    refine Run.always_iff_of_side
      (I := fun u => ∃ a, u.kernel.Follows a ∧ 0 ≤ a.lastPid ∧ u.Balanced a) ?_ ?_ h
      ⟨bootSchedule, follows_boot M, by decide, hb⟩ (hb.attributed (follows_boot M))
    · rintro u x v ⟨a, hf, hlast, hbal⟩ - hv - hst
      obtain ⟨a', hf', hlast', h₁, h₂⟩ := Timed.settle hf hbal hlast hst
      exact ⟨a', hf', hlast', h₁ (h₂ hv)⟩
    · rintro u x v ⟨a, hf, hlast, hbal⟩ - - hst
      obtain ⟨a', hf', -, h₁, h₂⟩ := Timed.settle hf hbal hlast hst
      exact ⟨h₂, fun hp => (h₁ hp).attributed hf'⟩
  · refine iff_of_false (fun hall => hl ?_) (fun hc => hl hc.1)
    exact hboot' (hall [] xs _ rfl (Run.nil _))

/-- A machine whose clock goes on between any two readings. -/
def Machine.ticking : Machine := { Machine.sample with ticks := fun n => BitVec.ofNat 32 n }

/-- The first process is interrupted by a key. -/
theorem attributed_iff_punctual_key :
    ∃ t, Run Timed.step (fun _ _ => True) (Timed.boot Machine.ticking 2)
        [⟨.event (.key 0x9e 0), 0, 0⟩] t ∧ t.Attributed := by
  obtain ⟨k, hst, -⟩ := Kernel.exists_key (c := 0x9e#8) (follows_boot Machine.ticking) rfl
    (by decide) 0#8
  have hstep : (Timed.boot Machine.ticking 2).step ⟨.event (.key 0x9e 0), 0, 0⟩
      = some ⟨k, Machine.ticking.boot.account (Timed.boot Machine.ticking 2).ledger
          ⟨.event (.key 0x9e 0), 0, 0⟩⟩ := by
    rw [Timed.step]
    exact congrArg (Option.map _) hst
  have hrun := Run.single (P := fun _ _ => True) trivial hstep
  refine ⟨_, hrun, (attributed_iff_punctual Machine.ticking 2 _ _ hrun).mpr ?_ _ [] _ rfl hrun⟩
  exact ⟨rfl, Run.single ⟨trivial, trivial⟩ hstep⟩

/-- **A system call is charged to user mode, and late**: the first process
runs from 0 to 5 and asks for its identifier until 7, and its statistics know
of neither. -/
theorem not_attributed_call :
    ∃ t, Run Timed.step (fun _ _ => True) (Timed.boot Machine.sample 0) [⟨.quiet, 5, 7⟩] t
      ∧ t.kernel.sched.current = 1 ∧ (t.ledger 1).user = 5 ∧ (t.ledger 1).system = 2
      ∧ ¬ t.Attributed := by
  have hstep : (Timed.boot Machine.sample 0).step ⟨.quiet, 5, 7⟩
      = some ⟨Machine.sample.boot.systemCall id,
          (Timed.boot Machine.sample 0).ledger.visit Machine.sample.boot.sched.current 5 7⟩ := rfl
  refine ⟨_, Run.single trivial hstep, rfl, by decide, by decide, fun hatt => ?_⟩
  have huser := (hatt 1 (Or.inl rfl) (by decide)).1
  exact absurd huser (by decide)

end ZeOS.Practica
