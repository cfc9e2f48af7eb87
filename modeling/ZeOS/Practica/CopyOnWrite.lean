import ZeOS.Practica.DataReads
import ZeOS.Practica.LiveFrames

/-!
# Copy-on-write refines eager copy

What a fork is for: the child starts with a copy of the parent's data, and
from then on the two are apart. The abstract system has one array of bytes
for each process, a fork that succeeds copies the parent's array to the
child, and a store goes to the array of its process. The kernel shares
frames instead and copies a page when it is first written to. Run side by
side on the same events, the two cannot be told apart by loads, as long as
a copy always finds a frame.
-/

namespace ZeOS.Practica

/-! ## The eager system -/

/-- For each process and address the byte it would read if every fork copied
the data pages. -/
abbrev Eager := Slot → ℕ → Option Byte

/-- **One event of the eager system**: a fork that succeeds copies the data of
its caller to the first free slot, a store changes the data of the current
process. -/
def eagerStep (k : Kernel) (e : Eager) : Event → Eager
  | .fork _ =>
    match k.freeSlots with
    | c :: _ =>
      if numPagData ≤ (freeFrames k.mm.physMem).length then
        Function.update e c (e k.sched.current)
      else e
    | [] => e
  | .store addr b =>
    Function.update e k.sched.current (Function.update (e k.sched.current) addr.toNat (some b))
  | _ => e

/-- **The kernel and the eager system side by side**, on the same events. -/
abbrev stepBoth (p : Kernel × Eager) (e : Event) : Option (Kernel × Eager) :=
  (p.1.step e).map (fun k' => (k', eagerStep p.1 p.2 e))

/-- **The events in question**: forks, context switches, loads from data pages
and stores to them that find a frame where they need one. -/
def DataEvent (k : Kernel) : Event → Prop
  | .tick _ => True
  | .yield _ => True
  | .fork _ => True
  | .load addr => DataAddr addr.toNat
  | .store addr _ => DataAddr addr.toNat ∧ k.CopyFinds addr
  | _ => False

/-! ## The simulation -/

section Simulation

variable {M : Machine} {k k' : Kernel} {a a' : Schedule} {e : Eager} {ev : Event} {m' : Mm}

/-- The kernel and the eager system agree: the data pages are in order, a user
process runs, and every live process reads what it should. -/
structure Agree (M : Machine) (a : Schedule) (m : Mm) (e : Eager) : Prop where
  mapped : Mapped M a m
  inOrder : InOrder (dataTable a m)
  busy : a.current ≠ a.idle
  reads : ∀ s, a.Live s → ∀ addr, DataAddr addr → m.userLoad s addr = e s addr

theorem agree_boot (M : Machine) : Agree M bootSchedule M.boot.mm M.boot.reads where
  mapped := Mapped.boot M
  inOrder := inOrder_boot M
  busy := by decide
  reads s hs addr _ := by
    have hth := (follows_boot M).threads
    rw [Kernel.reads, hth.dir_eq s ((Schedule.live_iff _ s).mp hs)]

/-- A rotation runs a process that waited, not the idle task. -/
theorem busy_rotate (h : a.current ≠ a.idle) : a.rotate.current ≠ a.rotate.idle := by
  obtain ⟨-, hidle, -, -, -, hcur⟩ := a.rotate_eq
  rw [hidle, hcur]
  cases hr : a.ready with
  | nil => exact h
  | cons t ts =>
    intro hc
    refine a.idle_notMem.2 ?_
    rw [hr]
    exact hc ▸ List.mem_cons_self

theorem Agree.rotate {m : Mm} (h : Agree M a m e) : Agree M a.rotate m e where
  mapped := h.mapped.rotate
  inOrder := h.inOrder.calm (calm_of_eq (fun _ => Schedule.user_rotate) rfl (fun _ _ _ => rfl))
  busy := busy_rotate h.busy
  reads s hs := h.reads s ((a.live_rotate s).mp hs)

/-- A fork that fails. -/
theorem Agree.giveUp {m : Mm} (h : Agree M a m e) {c : Slot} {cs : List Slot}
    (hfree : a.free = c :: cs) : Agree M (a.giveUp c cs hfree) m e where
  mapped := h.mapped.move rfl (fun _ => Schedule.mem_free_giveUp hfree) le_rfl
  inOrder := h.inOrder.calm
    (calm_of_eq (fun _ => Schedule.user_giveUp hfree) rfl (fun _ _ _ => rfl))
  busy := h.busy
  reads := h.reads

/-- **A fork that succeeds**: the child reads what its parent reads. -/
theorem Agree.spawn {m : Mm} (h : Agree M a m e) {c : Slot} {cs : List Slot}
    (hfree : a.free = c :: cs) (hlen : numPagData ≤ (freeFrames m.physMem).length) :
    Agree M (a.spawn c cs hfree h.busy) ((m.withFrames c numPagData).forkPages a.current c)
      (Function.update e c (e a.current)) := by
  have hcfree : c ∈ a.free := hfree ▸ List.mem_cons_self
  have hcc : a.current ≠ c := fun he => a.current_notMem.1 (he ▸ hcfree)
  have hcur := a.user_current h.busy
  have hm₁ := h.mapped.forkOk hfree h.busy
  have hforked := table_forked (m := m) hfree h.busy hlen
  have hram : ((m.withFrames c numPagData).forkPages a.current c).contents = m.contents := by
    rw [Mm.forkPages_withFrames m hcc]
    rfl
  generalize (m.withFrames c numPagData).forkPages a.current c = m₁ at hm₁ hforked hram
  obtain ⟨hchild, hother⟩ := (h.inOrder.joins hforked).view_eq m.contents
  refine ⟨hm₁, h.inOrder.forked hforked, h.busy, fun s hs addr hd => ?_⟩
  obtain ⟨i, -, hi⟩ := hd.exists_page
  rcases ((a.spawn c cs hfree h.busy).live_iff_user s).mp hs with hu | hidle
  · rw [userLoad_data hm₁ hu hi, hram]
    by_cases hsc : s = c
    · rw [hsc, Function.update_self, hchild, ← h.reads a.current a.live_current addr hd,
        userLoad_data h.mapped hcur hi]
    · have hu₀ := ((Schedule.user_spawn hfree h.busy).mp hu).resolve_right hsc
      rw [hother s (mem_owners.mpr hu₀), Function.update_of_ne hsc,
        ← h.reads s ((a.live_iff_user s).mpr (Or.inl hu₀)) addr hd,
        userLoad_data h.mapped hu₀ hi]
  · replace hidle : s = a.idle := hidle
    have hne : s ≠ c := fun he => a.idle_notMem.1 (hidle ▸ he ▸ hcfree)
    rw [Function.update_of_ne hne, ← h.reads s (Or.inr (Or.inl hidle)) addr hd, hidle,
      userLoad_idle h.mapped hi]
    exact userLoad_idle (a := a.spawn c cs hfree h.busy) hm₁ hi

/-- A page fault that finds a frame if it needs one. -/
theorem Agree.fault {m m₁ : Mm} (h : Agree M a m e) {p : ℕ} (hf : m.Faulted a.current p m₁)
    (hfree : 2 ≤ m.physMem (getFrame (m.pagusrTable a.current) p) → freeFrames m.physMem ≠ []) :
    Agree M a m₁ e := by
  obtain ⟨hm₁, ho₁, hreads⟩ :=
    reads_faulted h.mapped h.inOrder (a.user_current h.busy) hf hfree
  refine ⟨hm₁, ho₁, h.busy, fun s hs addr hd => ?_⟩
  rw [hreads s hs addr hd, h.reads s hs addr hd]

/-- A store that does not fault. -/
theorem Agree.store {m : Mm} (h : Agree M a m e) {addr : ℕ} (hd : DataAddr addr)
    (hcan : m.userCanStore a.current addr = true) {loc : Location} {b : Byte}
    (hloc : m.translate a.current addr = some loc) :
    Agree M a { m with ram := Function.update m.ram loc b }
      (Function.update e a.current (Function.update (e a.current) addr (some b))) := by
  have hu := a.user_current h.busy
  refine ⟨h.mapped.of_eq rfl rfl (fun _ => rfl),
    h.inOrder.calm (calm_of_eq (fun _ => Iff.rfl) rfl (fun _ _ _ => rfl)), h.busy,
    fun s hs addr' hd' => ?_⟩
  rw [reads_store h.mapped h.inOrder hu hd hcan hloc hs hd']
  by_cases hsa : s = a.current
  · subst hsa
    rw [Function.update_self]
    by_cases ha : addr' = addr
    · rw [if_pos ⟨rfl, ha⟩, ha, Function.update_self]
    · rw [if_neg (fun hc => ha hc.2), Function.update_of_ne ha]
      exact h.reads _ hs addr' hd'
  · rw [if_neg (fun hc => hsa hc.1), Function.update_of_ne hsa]
    exact h.reads s hs addr' hd'

/-- **One event**, on both sides. -/
theorem Agree.step (hk : k.Follows a) (h : Agree M a k.mm e) (hP : DataEvent k ev)
    (ho : Outcome a k.mm ev a' m') : Agree M a' m' (eagerStep k e ev) := by
  have hcur := hk.threads.current_eq
  have hslots := Kernel.freeSlots_eq hk.threads
  have hcopy : ∀ addr : DWord, k.CopyFinds addr →
      2 ≤ k.mm.physMem (getFrame (k.mm.pagusrTable a.current) (pageOf addr)) →
        freeFrames k.mm.physMem ≠ [] := by
    intro addr hc
    rwa [Kernel.CopyFinds, Kernel.currentPt_eq hk.threads] at hc
  cases ho with
  | stay | load => exact h
  | switch | yield => exact h.rotate
  | store addr b loc hcan hloc =>
    rw [eagerStep, hcur]
    exact h.store hP.1 hcan hloc
  | storeFault addr b m₁ loc hcan hfault hcan₁ hloc =>
    rw [eagerStep, hcur]
    exact (h.fault hfault (hcopy addr hP.2)).store hP.1 hcan₁ hloc
  | forkNone ebp hfree =>
    rw [eagerStep, hslots, hfree]
    exact h
  | forkFail ebp c cs hfree hlen =>
    rw [h.mapped.forkFail_mm (hfree ▸ List.mem_cons_self) hlen, eagerStep, hslots, hfree]
    dsimp only
    rw [if_neg (Nat.not_le.mpr hlen)]
    exact h.giveUp hfree
  | forkOk ebp c cs hfree hidle hlen =>
    rw [eagerStep, hslots, hfree, hcur]
    dsimp only
    rw [if_pos hlen]
    exact h.spawn hfree hlen
  | key | fault | exit | shmat | shmdt | shmrm | read | getStats => exact hP.elim

/-- Runs keep the systems in agreement. -/
theorem agree_of_agree {es : List Event} {p q : Kernel × Eager}
    (h : Run stepBoth (fun p ev => DataEvent p.1 ev) p es q)
    (h₀ : ∃ a, p.1.Follows a ∧ Agree M a p.1.mm p.2) :
    ∃ a, q.1.Follows a ∧ Agree M a q.1.mm q.2 := by
  have hstep : ∀ k e ev k', (∃ a, Kernel.Follows k a ∧ Agree M a k.mm e) → DataEvent k ev →
      k.step ev = some k' → ∃ a, k'.Follows a ∧ Agree M a k'.mm (eagerStep k e ev) := by
    rintro k e ev k' ⟨a, hf, ha⟩ hP hst
    obtain ⟨a', hf', hout, -⟩ := hf.step hst
    exact ⟨a', hf', ha.step hf hP hout⟩
  exact Run.simulation hstep h h₀

/-- The systems agree at the end of every run from boot. -/
theorem agree_of_run {es : List Event}
    (h : Run stepBoth (fun p ev => DataEvent p.1 ev) (M.boot, M.boot.reads) es (k, e)) :
    ∃ a, k.Follows a ∧ Agree M a k.mm e := by
  refine agree_of_agree h ?_
  dsimp only
  exact ⟨bootSchedule, follows_boot M, agree_boot M⟩

/-! ## Stores are served -/

/-- **A store to a data page is performed**, after a fault if need be. -/
theorem Agree.exists_store (hk : k.Follows a) (h : Agree M a k.mm e) {addr : DWord} (b : Byte)
    (hd : DataAddr addr.toNat) : ∃ k', k.step (.store addr b) = some k' := by
  obtain ⟨i, -, hi⟩ := hd.exists_page
  have hu := a.user_current h.busy
  have henter := Kernel.threads_interrupt hk.threads
  -- a store that is allowed is performed
  have hstore : ∀ (m : Mm) (s : Sched), Mapped M a m → m.stuck = false → s.cr3 = a.current →
      s.stuck = false → m.CountsFit → m.userCanStore a.current addr.toNat = true →
      ∃ k', Kernel.userStore addr b { k with mm := m, sched := s } = some k'
        ∧ k'.mm.stuck = false ∧ k'.sched.stuck = false ∧ k'.mm.CountsFit := by
    intro m s hm hmm hcr3 hs hfit hcan
    have htr := translate_data hm hu hi
    have hge : numPagKernel ≤ (dataTable a m).frame a.current i := by
      obtain ⟨h₁, h₂⟩ := dataPage_bounds i
      exact Nat.not_lt.mp fun hlt => ((hm.user_table _ hu).data _ h₁ h₂).2.2 (Or.inl hlt)
    refine ⟨_, by rw [Kernel.userStore, hcr3, if_pos hcan, htr]; rfl, ?_, hs, hfit⟩
    exact (Mm.require_stuck _ _).mpr ⟨hmm, hge⟩
  have hne := hk.ne h.busy
  by_cases hcan : k.mm.userCanStore a.current addr.toNat = true
  · obtain ⟨k', hk', hmm', hsc'⟩ :=
      hstore k.mm k.sched h.mapped hk.mm_down hk.threads.cr3_eq hk.sched_down hk.counts_fit hcan
    refine ⟨k', Kernel.step_eq_some_iff.mpr ⟨fun _ => hne, ?_, hmm', hsc'⟩⟩
    rw [Kernel.perform, hk.threads.cr3_eq, if_pos hcan]
    exact hk'
  · obtain ⟨m₁, hroutine, hdown, hcan₁⟩ := exists_faulted h.mapped h.inOrder hu hi hk.mm_down
    have hpt := henter.dir_eq a.current a.current_notMem.1
    set s₁ := ((k.sched.enter .interruptHandler).userToSystem).leave with hs₁
    have hfault : k.pagefault addr = some { k with mm := m₁, sched := s₁ } := by
      rw [Kernel.pagefault, henter.cr3_eq, henter.current_eq, hpt, hroutine]
      rfl
    have hfaulted := Mm.faulted_of_pagefaultRoutine hroutine hdown
    have hm₁ := h.mapped.faulted hu hfaulted
    have hsame : k.sched.Same s₁ := k.same_interrupted.trans (Sched.same_leave _)
    obtain ⟨k', hk', hmm', hsc'⟩ := hstore m₁ s₁ hm₁ hdown (hk.threads.same hsame).cr3_eq
      (hsame.stuck.trans hk.sched_down) (hk.counts_fit.congr hfaulted.shmMem) hcan₁
    refine ⟨k', Kernel.step_eq_some_iff.mpr ⟨fun _ => hne, ?_, hmm', hsc'⟩⟩
    rw [Kernel.perform, hk.threads.cr3_eq, if_neg hcan, hfault]
    exact hk'

/-- A store does not touch the schedule. -/
theorem Outcome.store_schedule {m : Mm} {addr : DWord} {b : Byte}
    (h : Outcome a m (.store addr b) a' m') : a' = a := by
  cases h <;> rfl

/-- **What a store changes**: what its process reads at its address. -/
theorem Agree.reads_store (hk : k.Follows a) (h : Agree M a k.mm e) {addr : DWord} {b : Byte}
    (hd : DataAddr addr.toNat) (hfree : k.CopyFinds addr)
    (hst : k.step (.store addr b) = some k') {s : Slot} (hs : a.Live s) {addr' : ℕ}
    (hd' : DataAddr addr') :
    k'.reads s addr' = if s = a.current ∧ addr' = addr.toNat then some b else k.reads s addr' := by
  obtain ⟨a', hf', hout, -⟩ := hk.step hst
  have h' : Agree M a' k'.mm (eagerStep k e (.store addr b)) := h.step hk ⟨hd, hfree⟩ hout
  obtain rfl := hout.store_schedule
  rw [Kernel.reads_eq hf'.threads hs, Kernel.reads_eq hk.threads hs, h'.reads s hs addr' hd',
    h.reads s hs addr' hd', eagerStep, hk.threads.current_eq]
  by_cases hsa : s = a'.current
  · rw [hsa, Function.update_self, Function.update_apply]
    exact if_congr (by simp) rfl rfl
  · rw [Function.update_of_ne hsa, if_neg (fun hc => hsa hc.1)]

/-- **A frame with count one is mapped by one process only**, in any of its
pages. -/
theorem Agree.mapped_once (hk : k.Follows a) (h : Agree M a k.mm e) {s q : Slot} {i : DataPage}
    {p : ℕ} (hs : k.Live s) (hpres : (k.ptOf s (dataPage i)).present = true)
    (hcount : k.mm.physMem (getFrame (k.ptOf s) (dataPage i)) = 1) (hq : k.Live q) (hqs : q ≠ s)
    (hp : p < totalPages) (hpres' : (k.ptOf q p).present = true) :
    getFrame (k.ptOf q) p ≠ getFrame (k.ptOf s) (dataPage i) := by
  have hs' := (Kernel.live_iff hk.threads s).mp hs
  have hq' := (Kernel.live_iff hk.threads q).mp hq
  rw [Kernel.ptOf_eq hk.threads hs'] at hpres hcount ⊢
  rw [Kernel.ptOf_eq hk.threads hq'] at hpres' ⊢
  have hu := h.mapped.user_of_present hs' (dataPage_bounds i).1 hpres
  intro he
  rcases h.mapped.fixed_or_data hq' hp hpres' with hfix | ⟨huq, j, rfl⟩
  · obtain ⟨h₁, h₂⟩ := dataPage_bounds i
    refine ((h.mapped.user_table s hu).data _ h₁ h₂).2.2 ?_
    have he' : (k.mm.pagusrTable q p).frame = (k.mm.pagusrTable s (dataPage i)).frame := he
    rwa [he'] at hfix
  · exact hqs (h.inOrder.sound.eq_of_count_one (mem_owners.mpr hu) (mem_owners.mpr huq) hcount he)

end Simulation

/-- **Copy-on-write refines eager copy.** At the end of every run every live
process reads in its data pages what it would read if forks copied them; a
store is served, read back, and seen by nobody else; and a read-only page
whose frame has count one is mapped by nobody else. -/
theorem copy_on_write_refines (M : Machine) (es : List Event) (k : Kernel) (e : Eager)
    (h : Run stepBoth (fun p ev => DataEvent p.1 ev) (M.boot, M.boot.reads) es (k, e)) :
    (∀ s, k.Live s → ∀ addr, DataAddr addr → k.reads s addr = e s addr)
      ∧ (∀ s, k.Live s → s ≠ k.sched.idleTask → ∀ addr, DataAddr addr →
          (k.reads s addr).isSome = true)
      ∧ (∀ addr b, DataAddr addr.toNat → k.CopyFinds addr →
          ∃ k', k.step (.store addr b) = some k'
            ∧ k'.reads k.sched.current addr.toNat = some b
            ∧ ∀ s, k.Live s → s ≠ k.sched.current → ∀ addr', DataAddr addr' →
                k'.reads s addr' = k.reads s addr')
      ∧ ∀ s, k.Live s → ∀ p, pagLogInitData ≤ p → p < pagLogInitShared →
          (k.ptOf s p).present = true → (k.ptOf s p).rw = false →
          k.mm.physMem (getFrame (k.ptOf s) p) = 1 →
          ∀ q, k.Live q → q ≠ s → ∀ p' < totalPages, (k.ptOf q p').present = true →
            getFrame (k.ptOf q) p' ≠ getFrame (k.ptOf s) p := by
  obtain ⟨a, hf, ha⟩ := agree_of_run h
  have hlive := Kernel.live_iff hf.threads
  refine ⟨fun s hs addr hd => ?_, fun s hs hidle addr hd => ?_, fun addr b hd hfree => ?_,
    fun s hs p h₁ h₂ hpres _ hcount q hq hqs p' hp' hpres' => ?_⟩
  · rw [Kernel.reads_eq hf.threads ((hlive s).mp hs)]
    exact ha.reads s ((hlive s).mp hs) addr hd
  · obtain ⟨i, -, hi⟩ := hd.exists_page
    rw [hf.threads.idle_eq] at hidle
    have hu := ((a.live_iff_user s).mp ((hlive s).mp hs)).resolve_right hidle
    rw [Kernel.reads_eq hf.threads ((hlive s).mp hs), userLoad_data ha.mapped hu hi]
    rfl
  · obtain ⟨k', hst⟩ := ha.exists_store hf b hd
    rw [hf.threads.current_eq]
    refine ⟨k', hst, ?_, fun s hs hne addr' hd' => ?_⟩
    · rw [ha.reads_store hf hd hfree hst a.live_current hd, if_pos ⟨rfl, rfl⟩]
    · rw [ha.reads_store hf hd hfree hst ((hlive s).mp hs) hd', if_neg (fun hc => hne hc.1)]
  · obtain ⟨i, rfl⟩ := exists_dataPage h₁ h₂
    exact ha.mapped_once hf hs hpres hcount hq hqs hp' hpres'

/-- The child of the first fork reads what its parent read. -/
theorem copy_on_write_refines_fork :
    ∃ k, Machine.sample.boot.step (.fork 0) = some k ∧ k.Live 2
      ∧ ∀ addr, DataAddr addr → k.reads 2 addr = Machine.sample.boot.reads 1 addr := by
  obtain ⟨k, hst, hf, -⟩ := exists_first_fork Machine.sample 0
  have hboot := (follows_boot Machine.sample).threads
  have hlen : numPagData ≤ (freeFrames Machine.sample.boot.mm.physMem).length :=
    (Drained.boot Machine.sample).total ▸ (by decide)
  have heager : eagerStep Machine.sample.boot Machine.sample.boot.reads (.fork 0)
      = Function.update Machine.sample.boot.reads 2 (Machine.sample.boot.reads 1) := by
    rw [eagerStep, Kernel.freeSlots_eq hboot, hboot.current_eq]
    exact if_pos hlen
  have hrun : Run stepBoth (fun p ev => DataEvent p.1 ev)
      (Machine.sample.boot, Machine.sample.boot.reads) [.fork 0]
      (k, Function.update Machine.sample.boot.reads 2 (Machine.sample.boot.reads 1)) := by
    refine Run.single trivial ?_
    rw [stepBoth, hst, heager]
    rfl
  have hlive : k.Live 2 := (Kernel.live_iff hf.threads 2).mpr (by decide)
  refine ⟨k, hst, hlive, fun addr hd => ?_⟩
  rw [(copy_on_write_refines Machine.sample [.fork 0] k _ hrun).1 2 hlive addr hd,
    Function.update_self]

end ZeOS.Practica
