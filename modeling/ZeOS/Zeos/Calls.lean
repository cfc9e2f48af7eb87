import ZeOS.Zeos.Queues

/-!
# The system calls and the queues

`sys_block`, `sys_unblock`, the end of `sys_exit` and `sys_fork`, each as a
move of one slot between the queues. The child of a fork is in no queue from
the moment it is taken out of `freequeue`, so what is written into its struct
meanwhile concerns nobody.
-/

namespace ZeOS.Zeos

namespace Kernel

variable {k : Kernel} {t : Tree} {l : Queue → List Slot} {s : Slot}

/-- **`list_del` on the node of a slot**, in a queue or already deleted. -/
theorem WaitingBut.unlink (h : k.WaitingBut t l s)
    (hs : (∀ q, s ∉ l q) → k.links (.task s) = ⟨none, none⟩) :
    ∃ l', (k.unlink (.task s)).WaitingBut t l' s ∧ (∀ q, s ∉ l' q)
      ∧ Quiet k (k.unlink (.task s)) ∧ (k.unlink (.task s)).task = k.task
      ∧ (k.unlink (.task s)).current = k.current ∧ (k.unlink (.task s)).cr3 = k.cr3 := by
  by_cases hq : ∃ q, s ∈ l q
  · obtain ⟨q, hq⟩ := hq
    obtain ⟨h', l', hunlink, hw, -, hnot, -⟩ := h.take hq
    rw [hunlink]
    exact ⟨l', hw, hnot, (rescheduled_links k h').quiet, rfl, rfl, rfl⟩
  · have hnot : ∀ q, s ∉ l q := fun q hm => hq ⟨q, hm⟩
    have hnone := hs hnot
    have hdel : listDel k.links (.task s) = none := by rw [listDel, hnone]
    set k₁ : Kernel :=
      { k with unlinkedDel := k.unlinkedDel || !listLinked k.links (.task s) } with hk₁
    have heq : k.unlink (.task s) = k₁.storeNull := by
      rw [Kernel.unlink]
      simp only [hdel, if_pos hnone, ← hk₁]
    obtain ⟨hlinks, htask, hcurrent, hcr3⟩ := storeNull_frame k₁
    have hmark : Quiet k k₁ :=
      Rescheduled.quiet ⟨rfl, rfl, rfl, rfl, rfl, fun _ => rfl⟩
    have hquiet := hmark.trans (quiet_storeNull k₁)
    rw [heq]
    exact ⟨l, h.congr hlinks hquiet.idleTask (fun u _ => by rw [htask]) (fun _ _ => Iff.rfl),
      hnot, hquiet, htask, hcurrent, hcr3⟩

/-- A change of one task struct that keeps its identifier. -/
theorem quiet_modifyTask (k : Kernel) (c : Slot) (f : TaskStruct → TaskStruct)
    (hf : ∀ u, (f u).pid = u.pid) : Quiet k (k.modifyTask c f) :=
  (rescheduled_modifyTask k c f hf).quiet

/-- A change of one task struct that the queues do not see. -/
theorem Queued.modifyTask (h : k.Queued t l) (c : Slot) (f : TaskStruct → TaskStruct)
    (hf : ∀ u, (f u).state = u.state ∧ (f u).dirPagesBaseAddr = u.dirPagesBaseAddr) :
    (k.modifyTask c f).Queued t l := by
  refine h.congr rfl (fun s => ?_) rfl rfl rfl
  rw [getPt, modifyTask_apply]
  split_ifs with hs
  · rw [hs]
    exact hf _
  · exact ⟨rfl, rfl⟩

/-- **A slot put into `blocked` or `readyqueue`**, its struct settled. -/
theorem WaitingBut.settle (h : k.WaitingBut t l s) {q : Queue} (hq : q ≠ .free)
    (hs : ∀ q, s ∉ l q) (htended : k.Tended t s) (halive : s ≠ k.idleTask)
    (hstate : (k.task s).state = if q = .blocked then .blocked else .ready)
    (hdir : k.getPt s = s) :
    ∃ h' l', k.linkTail (.task s) q.head = { k with links := h' }
      ∧ ({ k with links := h' } : Kernel).Waiting t l' ∧ (∀ q', s ∈ l' q' ↔ q' = q)
      ∧ ∀ u, u ≠ s → ∀ q', u ∈ l' q' ↔ u ∈ l q' := by
  obtain ⟨h', hadd, hw, hmem⟩ := h.push q hs
  refine ⟨h', _, hadd, hw.waiting ?_, hmem, fun u hu q' => ?_⟩
  · refine ⟨?_, ?_, ?_, ?_, ?_, ?_, ?_⟩
    · rw [hmem]
      exact fun he => absurd he.symm hq
    · rw [hmem]
      rintro rfl
      exact ⟨hstate, htended⟩
    · exact fun _ => halive
    · exact fun _ => halive
    · intro _
      rw [hmem]
      show (k.task s).state = .blocked ↔ _
      rw [hstate]
      split_ifs with hb
      · exact iff_of_true rfl hb.symm
      · exact iff_of_false nofun (fun he => hb he.symm)
    · exact fun _ hn => absurd ((hmem q).mpr rfl) (hn q)
    · exact fun _ => hdir
  · rw [Function.update_apply]
    split_ifs with he
    · simp [he, hu]
    · rfl

/-- **The current task, marked as blocked, is put into `blocked`.** -/
theorem WaitingBut.park (h : k.WaitingBut t l s) (hcurrent : k.current = s) (hs : ∀ q, s ∉ l q)
    (htended : k.Tended t s) (halive : s ≠ k.idleTask) (hstate : (k.task s).state = .blocked)
    (hdir : k.getPt s = s) (hcr3 : k.cr3 = s) :
    ∃ h' l', k.linkTail (.task s) .blocked = { k with links := h' }
      ∧ ({ k with links := h' } : Kernel).Queued t l' ∧ l' .ready = l .ready := by
  subst hcurrent
  obtain ⟨h', hadd, hw, hmem⟩ := h.push .blocked hs
  refine ⟨h', _, hadd, { hw.waiting ?_ with
    current_free := fun hm => absurd ((hmem .free).mp hm) nofun
    current_ready := fun hm => absurd ((hmem .ready).mp hm) nofun
    current_tended := htended
    current_state := fun hn => absurd ((hmem .blocked).mpr rfl) hn
    cr3 := hcr3 }, rfl⟩
  exact ⟨fun hm => absurd ((hmem .free).mp hm) nofun, fun hm => absurd ((hmem .ready).mp hm) nofun,
    fun _ => halive, fun _ => halive, fun _ => iff_of_true hstate ((hmem .blocked).mpr rfl),
    fun _ hn => absurd ((hmem .blocked).mpr rfl) (hn .blocked), fun _ => hdir⟩

/-- `sys_block` with an unblock counted only takes it off. -/
theorem sysBlock_of_counted (hpend : (k.task k.current).pendingUnblocks ≠ 0) :
    k.sysBlock = k.modifyTask k.current
      (fun c => { c with pendingUnblocks := c.pendingUnblocks - 1 }) := by
  unfold sysBlock
  dsimp only
  rw [if_neg hpend]

/-- **`sys_block`** moves the caller to `blocked`, where it goes on running
unless it is time to schedule. -/
theorem sysBlock_spec (h : k.Queued t l) (hidle : k.current ≠ k.idleTask) :
    ∃ l', k.sysBlock.Queued t l' ∧ Quiet k k.sysBlock := by
  unfold sysBlock
  dsimp only
  split_ifs with hpend
  · set k₁ := k.modifyTask k.current (fun c => { c with state := .blocked }) with hk₁
    have htask₁ : ∀ s, k₁.task s
        = if s = k.current then { k.task k.current with state := .blocked } else k.task s :=
      fun s => modifyTask_apply k k.current s _
    have hsettled := h.settled k.current
    have hdir := hsettled.dir h.current_tended
    have hw₁ : k₁.WaitingBut t l k.current :=
      (h.toWaiting.but k.current).congr rfl rfl (fun u hu => by rw [htask₁, if_neg hu])
        (fun _ _ => Iff.rfl)
    obtain ⟨l₂, hw₂, hnot, hquiet, htask₂, hcurrent₂, hcr3₂⟩ :=
      hw₁.unlink (hsettled.unlinked h.current_tended)
    show ∃ l', ((k₁.unlink (.task k.current)).linkTail (.task k.current) .blocked).schedule.Queued
        t l'
      ∧ Quiet k ((k₁.unlink (.task k.current)).linkTail (.task k.current) .blocked).schedule
    set k₂ := k₁.unlink (.task k.current) with hk₂
    have htask : k₂.task k.current = { k.task k.current with state := .blocked } := by
      rw [htask₂, htask₁, if_pos rfl]
    have hidle₂ : k₂.idleTask = k.idleTask := hquiet.idleTask
    obtain ⟨h', l', hadd, hq, -⟩ := hw₂.park hcurrent₂ hnot
      ((Tended.congr hidle₂ Iff.rfl).mpr h.current_tended) (fun he => hidle (he.trans hidle₂))
      (congrArg TaskStruct.state htask)
      ((congrArg TaskStruct.dirPagesBaseAddr htask).trans hdir) (hcr3₂.trans h.cr3)
    rw [hadd]
    obtain ⟨l'', hq', hres⟩ := schedule_spec hq
    have hmark : Quiet k k₁ :=
      quiet_modifyTask k k.current (fun c => { c with state := .blocked }) (fun _ => rfl)
    exact ⟨l'', hq', hmark.trans (hquiet.trans ((rescheduled_links k₂ h').quiet.trans hres.quiet))⟩
  · set f : TaskStruct → TaskStruct :=
      fun c => { c with pendingUnblocks := c.pendingUnblocks - 1 } with hf
    exact ⟨l, h.modifyTask k.current f (fun _ => ⟨rfl, rfl⟩),
      quiet_modifyTask k k.current f (fun _ => rfl)⟩

/-- **A blocked task is woken**: it goes from `blocked` to `readyqueue`. -/
theorem wake_spec (h : k.Queued t l) (htended : k.Tended t s) (hidle : s ≠ k.idleTask)
    (hcurrent : s ≠ k.current) (hstate : (k.task s).state = .blocked) :
    ∃ h' l', ((k.modifyTask s (fun u => { u with state := .ready })).unlink (.task s)).linkTail
        (.task s) .readyqueue
        = { k.modifyTask s (fun u => { u with state := .ready }) with links := h' }
      ∧ ({ k.modifyTask s (fun u => { u with state := .ready }) with links := h' } : Kernel).Queued
        t l'
      ∧ s ∈ l' .ready := by
  have hsettled := h.settled s
  have hblocked : s ∈ l .blocked := (hsettled.state htended).mp hstate
  set k₁ := k.modifyTask s (fun u => { u with state := .ready }) with hk₁
  have htask₁ : ∀ u, k₁.task u
      = if u = s then { k.task s with state := .ready } else k.task u :=
    fun u => modifyTask_apply k s u _
  have hw₁ : k₁.WaitingBut t l s :=
    (h.toWaiting.but s).congr rfl rfl (fun u hu => by rw [htask₁, if_neg hu])
      (fun _ _ => Iff.rfl)
  obtain ⟨h₂, l₂, hunlink, hw₂, -, hnot, hmem₂⟩ := hw₁.take hblocked
  have htask : k₁.task s = { k.task s with state := .ready } := by rw [htask₁, if_pos rfl]
  obtain ⟨h₃, l₃, hadd, hw₃, hready, hmem₃⟩ := hw₂.settle (q := .ready) nofun hnot htended hidle
    (congrArg TaskStruct.state htask)
    ((congrArg TaskStruct.dirPagesBaseAddr htask).trans (hsettled.dir htended))
  have heq : (k₁.unlink (.task s)).linkTail (.task s) .readyqueue = { k₁ with links := h₃ } := by
    rw [hunlink]
    exact hadd
  have hmem : ∀ q, k.current ∈ l₃ q ↔ k.current ∈ l q :=
    fun q => (hmem₃ _ hcurrent.symm q).trans (hmem₂ _ hcurrent.symm q)
  refine ⟨h₃, l₃, heq, { hw₃ with
    current_free := (not_congr (hmem .free)).mpr h.current_free
    current_ready := (not_congr (hmem .ready)).mpr h.current_ready
    current_tended := h.current_tended
    current_state := fun hn => ?_
    cr3 := h.cr3 }, (hready .ready).mpr rfl⟩
  show (k₁.task k.current).state = .run
  rw [htask₁, if_neg hcurrent.symm]
  exact h.current_state (fun hm => hn ((hmem .blocked).mpr hm))

/-- **`sys_unblock`** of a child moves it from `blocked` to `readyqueue`, or
counts the call. -/
theorem sysUnblock_spec (h : k.Queued t l) (pid : ℤ)
    (hfound : ∀ c, k.findChild pid = some c → k.Tended t c ∧ c ≠ k.idleTask ∧ c ≠ k.current) :
    ∃ l', (k.sysUnblock pid).2.Queued t l' ∧ Quiet k (k.sysUnblock pid).2 := by
  unfold sysUnblock
  cases hc : k.findChild pid with
  | none => exact ⟨l, h, (Rescheduled.refl k).quiet⟩
  | some c =>
    obtain ⟨htended, hci, hcc⟩ := hfound c hc
    simp only
    split_ifs with hstate
    · obtain ⟨h', l', heq, hq, -⟩ := wake_spec h htended hci hcc hstate
      rw [heq]
      exact ⟨l', hq, (quiet_modifyTask k c (fun u => { u with state := .ready })
        (fun _ => rfl)).trans (rescheduled_links _ h').quiet⟩
    · set f : TaskStruct → TaskStruct :=
        fun u => { u with pendingUnblocks := u.pendingUnblocks + 1 } with hf
      set k₁ : Kernel :=
        { k with stuck := k.stuck || decide ((k.task c).pendingUnblocks = intMax) } with hk₁
      have h₁ : k₁.Queued t l := h.congr rfl (fun _ => ⟨rfl, rfl⟩) rfl rfl rfl
      have hquiet : Quiet k k₁ := ⟨rfl, rfl, rfl, rfl, rfl, fun _ => rfl⟩
      show ∃ l', (k₁.modifyTask c f).Queued t l' ∧ Quiet k (k₁.modifyTask c f)
      exact ⟨l, h₁.modifyTask c f (fun _ => ⟨rfl, rfl⟩),
        hquiet.trans (quiet_modifyTask k₁ c f (fun _ => rfl))⟩

/-- **The end of `sys_exit`**: the slot of the dead process is given back,
unless it is marked as blocked, and another task runs. -/
theorem retire_spec (h : k.Queued t l) (hidle : k.current ≠ k.idleTask) :
    (∃ l', ((k.updateProcessStateRr k.current (some .freequeue)).schedNextRr).Queued
        (t.exit k.current k.idleTask) l'
      ∧ Rescheduled k (k.updateProcessStateRr k.current (some .freequeue)).schedNextRr)
      ∧ (l .ready ≠ [] →
        (k.updateProcessStateRr k.current (some .freequeue)).schedNextRr.current ∈ l .ready) := by
  have hdead : ∀ {k' : Kernel}, k'.idleTask = k.idleTask →
      ¬ k'.Tended (t.exit k.current k.idleTask) k.current := by
    intro k' hi ht
    rcases ht with ht | ht
    · exact (Tree.mem_exit.mp ht).1 rfl
    · exact hidle (ht.trans hi)
  have hw : k.WaitingBut (t.exit k.current k.idleTask) l k.current :=
    (h.toWaiting.but k.current).congr rfl rfl (fun _ _ => rfl) (fun u hu => by
      rw [Tree.mem_exit]
      exact and_iff_right hu)
  unfold updateProcessStateRr
  by_cases hblocked : (k.task k.current).state = .blocked
  · rw [if_neg (not_not.mpr hblocked)]
    refine schedNextRr_spec (hw.waiting ⟨fun hm => absurd hm h.current_free,
      fun hm => absurd hm h.current_ready, fun _ => hidle, fun _ => hidle,
      fun ht => absurd ht (hdead rfl), fun ht => absurd ht (hdead rfl),
      fun ht => absurd ht (hdead rfl)⟩)
  · have hnone := h.out hblocked
    obtain ⟨h', hadd, hw', hmem⟩ := hw.push .free hnone
    rw [if_pos hblocked, if_neg (not_not.mpr (h.current_state (hnone .blocked)))]
    simp only [if_neg (show Node.freequeue ≠ Node.readyqueue from nofun)]
    rw [show k.linkTail (.task k.current) .freequeue = { k with links := h' } from hadd]
    obtain ⟨⟨l', hq', hres⟩, hcurrent⟩ := schedNextRr_spec (hw'.waiting ⟨fun _ => hdead rfl,
      fun hm => absurd ((hmem .ready).mp hm) nofun, fun _ => hidle, fun _ => hidle,
      fun ht => absurd ht (hdead rfl), fun ht => absurd ht (hdead rfl),
      fun ht => absurd ht (hdead rfl)⟩)
    rw [Function.update_of_ne (show Queue.ready ≠ .free from nofun)] at hcurrent
    exact ⟨⟨l', hq', (rescheduled_links k h').trans hres⟩, hcurrent⟩

end Kernel

end ZeOS.Zeos
