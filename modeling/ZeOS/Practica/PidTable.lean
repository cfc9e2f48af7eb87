import ZeOS.Practica.UserMemory

/-!
# Process identifiers

An identifier is given by a fork that succeeds and taken back by an exit.
A fork that fails half-way does neither, but the slot it gives back has
been overwritten by a copy of the parent's struct, identifier included.
Where no fork has failed in this way the live processes are told apart by
their identifiers, free slots have none, and `sys_get_stats`, which scans
the array without a look at the queues, finds the process asked for.
-/

namespace ZeOS.Practica

/-! ## The identifiers of a schedule -/

/-- **The identifiers are in order**: those of live processes are distinct
and lie between 0 and the one given last, and free slots have -1. -/
structure Schedule.Pids (a : Schedule) : Prop where
  nonneg : ∀ s ∉ a.free, 0 ≤ a.pid s
  le_last : ∀ s ∉ a.free, a.pid s ≤ a.lastPid
  distinct : ∀ s ∉ a.free, ∀ t ∉ a.free, a.pid s = a.pid t → s = t
  free : ∀ s ∈ a.free, a.pid s = -1

namespace Schedule.Pids

variable {a a' : Schedule}

theorem boot : bootSchedule.Pids where
  nonneg := by decide
  le_last := by decide
  distinct := by decide
  free := by decide

theorem rotate (h : a.Pids) : a.rotate.Pids := by
  obtain ⟨hfree, -, hpid, hlast, -⟩ := a.rotate_eq
  refine ⟨?_, ?_, ?_, ?_⟩
  · rw [hfree, hpid]
    exact h.nonneg
  · rw [hfree, hpid, hlast]
    exact h.le_last
  · rw [hfree, hpid]
    exact h.distinct
  · rw [hfree, hpid]
    exact h.free

/-- A new process gets an identifier nobody has. -/
theorem spawn (h : a.Pids) {c : Slot} {cs : List Slot} (hfree : a.free = c :: cs)
    (hi : a.current ≠ a.idle) : (a.spawn c cs hfree hi).Pids := by
  have hlast : 0 ≤ a.lastPid :=
    (h.nonneg _ a.current_notMem.1).trans (h.le_last _ a.current_notMem.1)
  have hself : (a.spawn c cs hfree hi).pid c = a.lastPid + 1 := Function.update_self c _ a.pid
  have hother : ∀ s, s ≠ c → (a.spawn c cs hfree hi).pid s = a.pid s :=
    fun s hs => Function.update_of_ne hs _ a.pid
  have hold : ∀ s ∉ cs, s ≠ c → s ∉ a.free := by
    intro s hs hc hm
    rw [hfree] at hm
    exact (List.mem_cons.mp hm).elim hc hs
  refine ⟨fun s hs => ?_, fun s hs => ?_, fun s hs t ht he => ?_, fun s hs => ?_⟩
  · by_cases hc : s = c
    · rw [hc, hself]
      omega
    · rw [hother s hc]
      exact h.nonneg s (hold s hs hc)
  · show _ ≤ a.lastPid + 1
    by_cases hc : s = c
    · rw [hc, hself]
    · rw [hother s hc]
      exact (h.le_last s (hold s hs hc)).trans (Int.le_add_one le_rfl)
  · by_cases hc : s = c <;> by_cases hd : t = c
    · rw [hc, hd]
    · have hle := h.le_last t (hold t ht hd)
      rw [hc, hself, hother t hd] at he
      omega
    · have hle := h.le_last s (hold s hs hc)
      rw [hd, hself, hother s hc] at he
      omega
    · rw [hother s hc, hother t hd] at he
      exact h.distinct s (hold s hs hc) t (hold t ht hd) he
  · have hnd := a.nodup_free
    rw [hfree] at hnd
    have hc : s ≠ c := fun hc => (List.nodup_cons.mp hnd).1 (hc ▸ hs)
    rw [hother s hc]
    exact h.free s (hfree ▸ List.mem_cons_of_mem c hs)

/-- An exit takes the identifier back. -/
theorem retire (h : a.Pids) (hi : a.current ≠ a.idle) : (a.retire hi).Pids := by
  have hself : (a.retire hi).pid a.current = -1 := Function.update_self a.current _ a.pid
  have hother : ∀ s, s ≠ a.current → (a.retire hi).pid s = a.pid s :=
    fun s hs => Function.update_of_ne hs _ a.pid
  have hold : ∀ s ∉ (a.retire hi).free, s ∉ a.free ∧ s ≠ a.current := by
    intro s hs
    rw [Schedule.mem_free_retire, not_or] at hs
    exact hs
  refine ⟨fun s hs => ?_, fun s hs => ?_, fun s hs t ht he => ?_, fun s hs => ?_⟩
  · obtain ⟨hs, hne⟩ := hold s hs
    rw [hother s hne]
    exact h.nonneg s hs
  · obtain ⟨hs, hne⟩ := hold s hs
    rw [hother s hne]
    exact h.le_last s hs
  · obtain ⟨hs, hne⟩ := hold s hs
    obtain ⟨ht, hne'⟩ := hold t ht
    rw [hother s hne, hother t hne'] at he
    exact h.distinct s hs t ht he
  · by_cases hc : s = a.current
    · rw [hc, hself]
    · rw [hother s hc]
      exact h.free s (((Schedule.mem_free_retire hi).mp hs).resolve_right hc)

end Schedule.Pids

/-! ## Along a run -/

theorem Schedule.Pids.outcome {k : Kernel} {a a' : Schedule} {m' : Mm} (hk : k.Follows a)
    (h : a.Pids) {e : Event} (hP : FindsFrames k e) (ho : Outcome a k.mm e a' m') : a'.Pids := by
  cases ho with
  | stay | key | load | store | storeFault | fault | forkNone | shmat | shmdt | shmrm | read
  | getStats => exact h
  | switch | yield => exact h.rotate
  | forkFail ebp c cs hfree hlen =>
    rcases hP with hnil | hmany
    · rw [Kernel.freeSlots_eq hk.threads, hfree] at hnil
      exact absurd hnil (List.cons_ne_nil c cs)
    · exact absurd hmany (Nat.not_le.mpr hlen)
  | forkOk ebp c cs hfree hidle => exact h.spawn hfree hidle
  | exit ebp hidle => exact h.retire hidle

/-- The schedule behind a run that keeps the identifiers. -/
theorem pids_of_run {M : Machine} {es : List Event} {k : Kernel}
    (h : Run Kernel.step FindsFrames M.boot es k) : ∃ a, k.Follows a ∧ a.Pids :=
  run_invariant (I := fun a _ => a.Pids) Schedule.Pids.boot
    (fun _ _ _ _ _ hk _ hI hP ho _ => hI.outcome hk hP ho) h

namespace Kernel

/-- **The identifiers of a state.** -/
structure PidTable (k : Kernel) : Prop where
  nonneg : ∀ s, k.Live s → 0 ≤ (k.sched.task s).pid
  distinct : ∀ s t, k.Live s → k.Live t → (k.sched.task s).pid = (k.sched.task t).pid → s = t
  free : ∀ s ∈ k.freeSlots, (k.sched.task s).pid = -1

theorem pidTable_of_pids {k : Kernel} {a : Schedule} (h : k.sched.Threads a) (hp : a.Pids) :
    k.PidTable := by
  have hlive : ∀ s, k.Live s ↔ s ∉ a.free := fun s => (live_iff h s).trans (a.live_iff s)
  refine ⟨fun s hs => ?_, fun s t hs ht he => ?_, fun s hs => ?_⟩
  · rw [h.pid_eq]
    exact hp.nonneg s ((hlive s).mp hs)
  · rw [h.pid_eq, h.pid_eq] at he
    exact hp.distinct s ((hlive s).mp hs) t ((hlive t).mp ht) he
  · rw [h.pid_eq]
    exact hp.free s (freeSlots_eq h ▸ hs)

/-- The slot of a live process is the one its identifier leads to. -/
theorem statsSlot_of_live {k : Kernel} {a : Schedule} (h : k.sched.Threads a) (hp : a.Pids)
    {pid : DWord} (hpid : 0 ≤ pid.toInt) {s : Slot} (hs : k.Live s)
    (he : (k.sched.task s).pid = pid.toInt) : k.statsSlot pid = some s := by
  -- a slot with the identifier is live, and the process is the only one
  have honly : ∀ i, (k.sched.task i).pid = pid.toInt → i = s := by
    intro i hi
    rw [h.pid_eq] at hi he
    have hfree : i ∉ a.free := by
      intro hm
      rw [hp.free i hm] at hi
      omega
    exact hp.distinct i hfree s ((a.live_iff s).mp ((live_iff h s).mp hs)) (hi.trans he.symm)
  rw [statsSlot, if_neg (by omega)]
  cases hres : (List.finRange nrTasks).find?
      (fun i => decide ((k.sched.task i).pid = pid.toInt)) with
  | none => exact absurd he (by simpa using List.find?_eq_none.mp hres s (List.mem_finRange s))
  | some i => rw [honly i (by simpa using List.find?_some hres)]

/-- **`sys_get_stats` finds nobody else.** -/
theorem sysGetStats_of_not_live {k : Kernel} {a : Schedule} (h : k.sched.Threads a) (hp : a.Pids)
    {pid st : DWord} (hpid : 0 ≤ pid.toInt)
    (hok : accessOk k.currentPt .verifyWrite st (BitVec.ofNat 32 Stats.size) = true)
    (hnone : ∀ s, k.Live s → (k.sched.task s).pid ≠ pid.toInt) :
    k.sysGetStats pid st = (-eSRCH, k) := by
  have hneg : ¬ pid.toInt < 0 := by omega
  have hslot : k.statsSlot pid = none := by
    rw [statsSlot, if_neg hneg, List.find?_eq_none]
    intro s _
    rw [decide_eq_true_iff]
    by_cases hs : s ∈ a.free
    · rw [h.pid_eq, hp.free s hs]
      omega
    · exact hnone s ((live_iff h s).mpr ((a.live_iff s).mpr hs))
  rw [sysGetStats_of_none hok hslot, if_neg hneg]

end Kernel

/-! ## The table -/

/-- **The table of identifiers** at the end of a run in which no fork runs
out of frames, and what a call of `sys_get_stats` answers there: the block it
is given, where the process may write to it, holds the statistics. -/
theorem pid_table_of_run (M : Machine) (es : List Event) (k : Kernel)
    (h : Run Kernel.step FindsFrames M.boot es k) :
    k.PidTable
      ∧ ∀ pid st : DWord, 0 ≤ pid.toInt →
          accessOk k.currentPt .verifyWrite st (BitVec.ofNat 32 Stats.size) = true →
          (∀ s, k.Live s → (k.sched.task s).pid = pid.toInt →
            (k.entered.sysGetStats pid st).1 = 0
              ∧ (Accessible k.currentPt .verifyWrite st (BitVec.ofNat 32 Stats.size) →
                k.Holds (k.entered.sysGetStats pid st).2.mm st (k.entered.statsOf s).byte
                  Stats.size))
          ∧ ((∀ s, k.Live s → (k.sched.task s).pid ≠ pid.toInt) →
            k.entered.sysGetStats pid st = (-eSRCH, k.entered)) := by
  obtain ⟨a, hf, hp⟩ := pids_of_run h
  obtain ⟨b, hfb, hm⟩ := (reachable_of_run h).mapped
  have hth := hf.entered.threads
  have hlive : ∀ s, k.entered.Live s ↔ k.Live s := fun s =>
    (Kernel.live_iff hth s).trans (Kernel.live_iff hf.threads s).symm
  have hpids : ∀ s, (k.entered.sched.task s).pid = (k.sched.task s).pid := fun s =>
    (hth.pid_eq s).trans (hf.threads.pid_eq s).symm
  refine ⟨Kernel.pidTable_of_pids hf.threads hp, fun pid st hpid hok => ⟨fun s hs he => ?_, ?_⟩⟩
  · have hslot : k.entered.statsSlot pid = some s :=
      Kernel.statsSlot_of_live hth hp hpid ((hlive s).mpr hs) ((hpids s).trans he)
    refine ⟨(Kernel.sysGetStats_of_some (currentPt_entered hf ▸ hok) hslot).1, fun hacc => ?_⟩
    rw [hacc.sysGetStats hfb hm hok hslot]
    exact hacc.holds hfb hm (by decide) _
  · intro hnone
    refine Kernel.sysGetStats_of_not_live hth hp hpid (currentPt_entered hf ▸ hok) (fun s hs => ?_)
    rw [hpids]
    exact hnone s ((hlive s).mp hs)

/-- After a fork the parent asks for the statistics of its child. -/
theorem pid_table_of_run_fork :
    ∃ k, Run Kernel.step FindsFrames Machine.sample.boot [.fork 0] k ∧ k.PidTable
      ∧ k.Live 2 ∧ (k.sched.task 2).pid = 1001
      ∧ (k.entered.sysGetStats 1001#32 0x108000#32).1 = 0
      ∧ k.Holds (k.entered.sysGetStats 1001#32 0x108000#32).2.mm 0x108000#32
          (k.entered.statsOf 2).byte Stats.size := by
  obtain ⟨k, hst, hf, -⟩ := exists_first_fork Machine.sample 0
  obtain ⟨k', a, hP, hst', -⟩ := (Drained.boot Machine.sample).fork (by decide) (by decide)
  have hrun : Run Kernel.step FindsFrames Machine.sample.boot [.fork 0] k := Run.single hP hst
  have hlive : k.Live 2 := (Kernel.live_iff hf.threads 2).mpr (by decide)
  have hpid : (k.sched.task 2).pid = 1001 := (hf.threads.pid_eq 2).trans (by decide)
  have hin : InData 0x108000#32 (BitVec.ofNat 32 Stats.size).toNat := by decide
  obtain ⟨htable, hstats⟩ := pid_table_of_run Machine.sample [.fork 0] k hrun
  obtain ⟨hfound, -⟩ := hstats 1001#32 0x108000#32 (by decide) (accessOk_of_inData hin)
  obtain ⟨hret, hholds⟩ := hfound 2 hlive hpid
  obtain ⟨b, hfb, hm⟩ := (reachable_of_run hrun).mapped
  have hbusy : b.current ≠ b.idle := by
    rw [← hfb.threads.current_eq, ← hfb.threads.idle_eq]
    exact hf.ne (by decide)
  exact ⟨k, hrun, htable, hlive, hpid, hret, hholds (hin.accessible hfb hm hbusy)⟩

/-- **A fork that runs out of frames** leaves the parent's identifier in a
free slot. -/
theorem not_pid_table_drained :
    ∃ k, Run Kernel.step (fun _ _ => True) Machine.sample.boot (drain ++ [.fork 0]) k
      ∧ ∃ s ∈ k.freeSlots, (k.sched.task s).pid ≠ -1 := by
  obtain ⟨k, a, v, hrun, h⟩ := exists_drained Machine.sample
  obtain ⟨a', hf', hpids⟩ := pids_of_run hrun
  obtain ⟨c, cs, hfree⟩ : ∃ c cs, a.free = c :: cs :=
    List.exists_cons_of_length_pos (by rw [h.free]; decide)
  have hlen : (freeFrames k.mm.physMem).length < numPagData := by
    rw [h.total]
    decide
  have hsame : (k.mm.allocDataPages c 0 numPagData).2 = k.mm :=
    h.mapped.forkFail_mm (hfree ▸ List.mem_cons_self) hlen
  obtain ⟨k', hst, hf, -, -⟩ := Kernel.exists_forkFail h.follows hfree h.busy hlen hsame 0
  refine ⟨k', Run.snoc (hrun.mono (fun _ _ _ => trivial)) trivial hst, c, ?_, ?_⟩
  · rw [Kernel.freeSlots_eq hf.threads]
    exact (Schedule.mem_free_giveUp hfree).mpr (hfree ▸ List.mem_cons_self)
  · -- the identifier is that of the caller, which is live
    have hpid : (k'.sched.task c).pid = a.pid a.current :=
      (hf.threads.pid_eq c).trans (Function.update_self c _ a.pid)
    have hcur : a.pid a.current = a'.pid a'.current := by
      rw [← h.follows.threads.pid_eq, ← hf'.threads.pid_eq, ← h.follows.threads.current_eq,
        ← hf'.threads.current_eq]
    have hpos := hpids.nonneg a'.current a'.current_notMem.1
    rw [hpid, hcur]
    omega

end ZeOS.Practica
