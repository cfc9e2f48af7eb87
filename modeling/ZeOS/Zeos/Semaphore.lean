import ZeOS.Zeos.Pending

/-!
# `sys_block` and `sys_unblock` as a semaphore

The two calls are meant as the two operations of a counting semaphore that
each process has for itself: its parent puts units in, and the process takes
them out one by one and waits where there is none. What has been called for
and what has returned is kept beside the kernel, in `Calls`, which reads of it
only who runs and whether the count was zero.

The count itself is right. Two things are not. A process that finds nothing
counted waits by calling `schedule`, which only passes the CPU on when the
quantum is over and somebody is ready; otherwise the call returns, with
nothing taken. And `sys_unblock` of a child that is not blocked counts the
call but returns no value. So a run has the semaphore law exactly if every
wait falls together with the end of a quantum and every unblock finds its
process blocked.
-/

namespace ZeOS.Zeos

/-- **What has been called for and returned.** -/
structure Calls where
  /-- The calls of `sys_block` that have returned to the process. -/
  returned : Slot → ℕ
  /-- The calls of `sys_unblock` its parent has made for it. -/
  addressed : Slot → ℕ
  /-- The call of `sys_block` the process is in, if it was made with nothing
  counted: how many unblocks it had been addressed by then. -/
  waiting : Slot → Option ℕ

/-- A state, and the calls of the run that led to it. -/
structure Journal where
  world : World
  calls : Calls

namespace Journal

/-- The call of `sys_block` made with nothing counted that the process is in
during the event. -/
def calling (u : Journal) (e : Event) (s : Slot) : Option ℕ :=
  if u.world.blocks e s ∧ (u.world.kernel.task s).pendingUnblocks = 0 then
    some (u.calls.addressed s)
  else u.calls.waiting s

/-- The calls after an event. A process that runs after it has returned from
the call it was in. -/
def note (u : Journal) (e : Event) (w : World) : Calls where
  returned s :=
    if w.kernel.current = s ∧ (u.world.blocks e s ∨ u.calls.waiting s ≠ none) then
      u.calls.returned s + 1
    else u.calls.returned s
  addressed s :=
    if u.world.addresses e s then u.calls.addressed s + 1 else u.calls.addressed s
  waiting s := if w.kernel.current = s then none else u.calling e s

/-- **One event.** -/
def step (u : Journal) (e : Event) : Option Journal :=
  (u.world.step e).map (fun w => ⟨w, u.note e w⟩)

/-- Nothing has been called for at boot. -/
def boot (ram : Location → Byte) : Journal where
  world := World.boot ram
  calls := ⟨fun _ => 0, fun _ => 0, fun _ => none⟩

theorem step_eq_some_iff {u v : Journal} {e : Event} :
    u.step e = some v ↔ u.world.step e = some v.world ∧ v.calls = u.note e v.world := by
  rw [step, Option.map_eq_some_iff]
  constructor
  · rintro ⟨w, hw, rfl⟩
    exact ⟨hw, rfl⟩
  · rintro ⟨hw, hc⟩
    exact ⟨v.world, hw, by rw [← hc]⟩

/-! ## The law -/

/-- A process has been woken: it is marked as ready and is in `readyqueue`. -/
def Woken (v : Journal) (s : Slot) : Prop :=
  (v.world.kernel.task s).state = .ready
    ∧ ∃ l, Rings v.world.kernel.links l ∧ s ∈ l .ready

/-- **The count of a semaphore, over one event.** -/
structure Counting (u : Journal) (e : Event) (v : Journal) : Prop where
  /-- A call of `sys_block` made with nothing counted returns only after the
  process has been addressed once more. -/
  waits : ∀ s n, u.calling e s = some n → v.world.kernel.current = s → n < v.calls.addressed s
  /-- No more calls of `sys_block` have returned than unblocks were made. -/
  bounded : ∀ s, v.calls.returned s ≤ v.calls.addressed s
  /-- An unblock wakes the process or is counted. -/
  kept : ∀ s, u.world.addresses e s = true → v.Woken s
    ∨ (v.world.kernel.task s).pendingUnblocks = (u.world.kernel.task s).pendingUnblocks + 1

/-- **The semaphore, over one event**: the count, and what `sys_unblock`
returns. -/
structure Semaphore (u : Journal) (e : Event) (v : Journal) : Prop extends Counting u e v where
  /-- 0 for a child. -/
  child : ∀ pid, e = .unblock pid → ∀ s, u.world.addresses e s = true →
    (u.world.kernel.sysUnblock pid).1 = some 0
  /-- -1 for anything else, and nothing has changed. -/
  stranger : ∀ pid, e = .unblock pid → (∀ s, u.world.addresses e s = false) →
    (u.world.kernel.sysUnblock pid).1 = some (-1) ∧ v.world = u.world

/-- A call of `sys_block` with nothing counted is made when `schedule` passes
the CPU on. -/
def WaitsYield (u : Journal) (e : Event) : Prop :=
  e = .block → (u.world.kernel.task u.world.kernel.current).pendingUnblocks = 0 →
    u.world.kernel.Yields

/-- A call of `sys_unblock` for a child finds it blocked. -/
def FindsBlocked (u : Journal) (e : Event) : Prop :=
  ∀ s, u.world.addresses e s = true → (u.world.kernel.task s).state = .blocked

end Journal

/-! ## The balance of one process -/

/-- **What a process has had**: the units it has taken and those still
counted are the unblocks it has been addressed, but for the one that has
ended a call it has yet to return from. -/
inductive Tally (c : TaskStruct) (returned addressed : ℕ) : Option ℕ → Prop
  | working (hst : c.state ≠ .blocked) (hpend : 0 ≤ c.pendingUnblocks)
      (hsum : (returned : ℤ) + c.pendingUnblocks = addressed) :
      Tally c returned addressed none
  | asleep (hst : c.state = .blocked) (hpend : c.pendingUnblocks = 0)
      (hsum : returned = addressed) : Tally c returned addressed (some addressed)
  | woken (hst : c.state ≠ .blocked) (hpend : 0 ≤ c.pendingUnblocks)
      (hsum : (returned : ℤ) + 1 + c.pendingUnblocks = addressed) :
      Tally c returned addressed (some returned)

namespace Tally

variable {c c' : TaskStruct} {r a : ℕ} {wt : Option ℕ}

theorem bounded (h : Tally c r a wt) : r ≤ a := by
  cases h with
  | working _ hpend hsum => omega
  | asleep _ _ hsum => exact le_of_eq hsum
  | woken _ hpend hsum => omega

/-- A process that is not marked as blocked has been woken from the call it
is in. -/
theorem lt_of_waiting {n : ℕ} (h : Tally c r a (some n)) (hst : c.state ≠ .blocked) :
    n = r ∧ r < a := by
  cases h with
  | asleep hst' => exact absurd hst' hst
  | woken _ hpend hsum =>
    refine ⟨rfl, ?_⟩
    omega

/-- A process in no call is not marked as blocked. -/
theorem unmarked (h : Tally c r a none) : c.state ≠ .blocked := by
  cases h with
  | working hst _ _ => exact hst

/-- What changes neither the count nor the mark. -/
theorem congr (h : Tally c r a wt) (hm : SameMark c c') : Tally c' r a wt := by
  cases h with
  | working hst hpend hsum =>
    exact working (fun hc => hst (hm.2.mp hc)) (by rwa [hm.1]) (by rwa [hm.1])
  | asleep hst hpend hsum => exact asleep (hm.2.mpr hst) (hm.1.trans hpend) hsum
  | woken hst hpend hsum =>
    exact woken (fun hc => hst (hm.2.mp hc)) (by rwa [hm.1]) (by rwa [hm.1])

/-- A process that runs has returned from the call it was in. -/
theorem resume (h : Tally c r a wt) (hst : c.state ≠ .blocked) :
    Tally c (if wt ≠ none then r + 1 else r) a none := by
  cases h with
  | working hst hpend hsum =>
    rw [if_neg (not_not.mpr rfl)]
    exact working hst hpend hsum
  | asleep hst' => exact absurd hst' hst
  | woken hst hpend hsum =>
    rw [if_pos nofun]
    refine working hst hpend ?_
    push_cast
    exact hsum

/-- An unblock that is counted. -/
theorem count (h : Tally c r a wt) (hst : c.state ≠ .blocked) (hst' : c'.state = c.state)
    (hpend' : c'.pendingUnblocks = c.pendingUnblocks + 1) : Tally c' r (a + 1) wt := by
  cases h with
  | working _ hpend hsum =>
    refine working (hst' ▸ hst) ?_ ?_
    · rw [hpend']
      omega
    · rw [hpend']
      push_cast
      omega
  | asleep hb => exact absurd hb hst
  | woken _ hpend hsum =>
    refine woken (hst' ▸ hst) ?_ ?_
    · rw [hpend']
      omega
    · rw [hpend']
      push_cast
      omega

/-- An unblock that wakes the process. -/
theorem wake (h : Tally c r a wt) (hst : c.state = .blocked) (hst' : c'.state = .ready)
    (hpend' : c'.pendingUnblocks = c.pendingUnblocks) : Tally c' r (a + 1) wt := by
  cases h with
  | working hn => exact absurd hst hn
  | asleep _ hpend hsum =>
    subst hsum
    refine woken (by rw [hst']; exact nofun) ?_ ?_
    · rw [hpend', hpend]
    · rw [hpend', hpend]
      push_cast
      omega
  | woken hn => exact absurd hst hn

/-- A call of `sys_block` with something counted. -/
theorem take (h : Tally c r a none) (hst' : c'.state = c.state) (hne : c.pendingUnblocks ≠ 0)
    (hpend' : c'.pendingUnblocks = c.pendingUnblocks - 1) : Tally c' (r + 1) a none := by
  cases h with
  | working hst hpend hsum =>
    refine working (hst' ▸ hst) ?_ ?_
    · rw [hpend']
      omega
    · rw [hpend']
      push_cast
      omega

/-- A call of `sys_block` with nothing counted. -/
theorem park (h : Tally c r a none) (hzero : c.pendingUnblocks = 0) (hst' : c'.state = .blocked)
    (hpend' : c'.pendingUnblocks = 0) : Tally c' r a (some a) := by
  cases h with
  | working hst hpend hsum =>
    refine asleep hst' hpend' ?_
    omega

end Tally

namespace Journal

variable {u v : Journal} {e : Event} {s : Slot}

/-- **What the calls say of the processes** in a run whose waits have all
passed the CPU on. -/
structure Tallied (u : Journal) : Prop where
  sound : u.world.Sound
  named : u.world.Named
  /-- The process that runs is in no call. -/
  running : (u.world.kernel.task u.world.kernel.current).state ≠ .blocked
  working : u.calls.waiting u.world.kernel.current = none
  tally : ∀ s ∈ u.world.tree.alive,
    Tally (u.world.kernel.task s) (u.calls.returned s) (u.calls.addressed s) (u.calls.waiting s)
  fresh : ∀ s ∉ u.world.tree.alive,
    u.calls.returned s = 0 ∧ u.calls.addressed s = 0 ∧ u.calls.waiting s = none

theorem eq_block_of_blocks (h : u.world.blocks e s = true) :
    e = .block ∧ s = u.world.kernel.current := by
  cases e with
  | block => exact ⟨rfl, of_decide_eq_true h⟩
  | _ => exact absurd h Bool.false_ne_true

theorem child_of_addresses (h : u.world.addresses e s = true) :
    u.world.tree.Child u.world.kernel.current s ∧ u.world.blocks e s = false := by
  cases e with
  | unblock pid => exact ⟨(of_decide_eq_true h).1, rfl⟩
  | _ => exact absurd h Bool.false_ne_true

theorem calling_eq (hb : u.world.blocks e s = false) : u.calling e s = u.calls.waiting s := by
  rw [calling, hb, if_neg (fun hp => Bool.false_ne_true hp.1)]

section Step

variable (h : u.Tallied) (ht : u.world.Turn e v.world) (hc : v.calls = u.note e v.world)

include ht in
/-- A wait that passes the CPU on has not returned. -/
theorem waits_of_yield (hw : u.WaitsYield e) (hb : u.world.blocks e s = true)
    (hpend : (u.world.kernel.task s).pendingUnblocks = 0) : v.world.kernel.current ≠ s := by
  obtain ⟨rfl, rfl⟩ := eq_block_of_blocks hb
  exact (ht.parked rfl hpend).2.2.mp (hw rfl hpend)

include h ht

/-- Whoever runs after an event was not marked as blocked before it. -/
theorem Tallied.unmarked :
    (u.world.kernel.task v.world.kernel.current).state ≠ .blocked := by
  rcases ht.runs with hsame | hready
  · rw [hsame]
    exact h.running
  · rw [hready]
    exact nofun

include hc

omit ht in
/-- A slot that was of no process has had nothing. -/
theorem Tallied.fresh_step (hblock : e = .block → u.world.kernel.current ∈ u.world.tree.alive)
    (hs : s ∉ u.world.tree.alive) :
    v.calls.returned s = 0 ∧ v.calls.addressed s = 0 ∧ v.calls.waiting s = none := by
  obtain ⟨hr, ha, hwt⟩ := h.fresh s hs
  have hb : u.world.blocks e s = false := by
    refine Bool.eq_false_iff.mpr (fun hb => hs ?_)
    obtain ⟨he, rfl⟩ := eq_block_of_blocks hb
    exact hblock he
  have had : u.world.addresses e s = false :=
    Bool.eq_false_iff.mpr (fun had => hs (child_of_addresses had).1.1)
  rw [hc]
  refine ⟨?_, ?_, ?_⟩
  · show (if _ then _ else _) = _
    rw [hb, hwt, if_neg (fun hp => hp.2.elim Bool.false_ne_true (fun hn => hn rfl))]
    exact hr
  · show (if _ then _ else _) = _
    rw [had, if_neg nofun]
    exact ha
  · show (if _ then none else u.calling e s) = none
    rw [calling_eq hb, hwt]
    exact ite_self none

/-- **The balance of a process after an event.** -/
theorem Tallied.tally_step (hw : u.WaitsYield e) (hs : s ∈ u.world.tree.alive) :
    Tally (v.world.kernel.task s) (v.calls.returned s) (v.calls.addressed s)
      (v.calls.waiting s) := by
  have htally := h.tally s hs
  rw [hc]
  show Tally _ (if _ then _ else _) (if _ then _ else _) (if _ then _ else _)
  by_cases had : u.world.addresses e s = true
  · -- an unblock: the process is not the one that runs
    obtain ⟨hchild, hb⟩ := child_of_addresses had
    obtain ⟨hcur, hwake, hcount⟩ := ht.unblocked s had
    have hne : v.world.kernel.current ≠ s := by
      rw [hcur]
      exact (h.sound.guarded s hchild.1 _ hchild.2).1
    rw [if_neg (fun hp => hne hp.1), if_pos had, if_neg hne, calling_eq hb]
    by_cases hst : (u.world.kernel.task s).state = .blocked
    · obtain ⟨hst', hpend', -⟩ := hwake hst
      exact htally.wake hst hst' hpend'
    · obtain ⟨hst', hpend'⟩ := hcount hst
      exact htally.count hst hst' hpend'
  · rw [if_neg had]
    by_cases hb : u.world.blocks e s = true
    · obtain ⟨rfl, rfl⟩ := eq_block_of_blocks hb
      rw [h.working] at htally
      by_cases hpend : (u.world.kernel.task u.world.kernel.current).pendingUnblocks = 0
      · -- the call waits
        obtain ⟨hst', hpend', -⟩ := ht.parked rfl hpend
        have hne := waits_of_yield ht hw hb hpend
        rw [if_neg (fun hp => hne hp.1), if_neg hne, calling, if_pos ⟨hb, hpend⟩]
        exact htally.park hpend hst' hpend'
      · obtain ⟨hcur, hst', hpend'⟩ := ht.taken rfl hpend
        rw [if_pos ⟨hcur, Or.inl hb⟩, if_pos hcur]
        exact htally.take hst' hpend hpend'
    · have hbf := Bool.eq_false_iff.mpr hb
      have hmark := ht.marks s (Or.inl hs) hbf (Bool.eq_false_iff.mpr had)
      rw [hbf]
      by_cases hcur : v.world.kernel.current = s
      · have hst := h.unmarked ht
        rw [hcur] at hst
        have hres := (htally.resume hst).congr hmark
        rw [if_pos hcur]
        by_cases hwt : u.calls.waiting s ≠ none
        · rw [if_pos hwt] at hres
          rw [if_pos ⟨hcur, Or.inr hwt⟩]
          exact hres
        · rw [if_neg hwt] at hres
          rw [if_neg (fun hp => hp.2.elim nofun hwt)]
          exact hres
      · rw [if_neg (fun hp => hcur hp.1), if_neg hcur, calling_eq hbf]
        exact htally.congr hmark

end Step

/-- **One event** that is no exit keeps the balances, unless a wait returns
at once. -/
theorem Tallied.step (h : u.Tallied) (he : e ≠ .exit) (hw : u.WaitsYield e)
    (hst : u.step e = some v) : v.Tallied := by
  obtain ⟨hworld, hc⟩ := step_eq_some_iff.mp hst
  have ht := h.sound.turn h.named h.running he hworld
  obtain ⟨hs, -, hidle⟩ := h.sound.step hworld
  have hblock : e = .block → u.world.kernel.current ∈ u.world.tree.alive := by
    rintro rfl
    exact h.sound.current_alive (World.current_ne hworld rfl)
  have htally : ∀ s ∈ v.world.tree.alive, Tally (v.world.kernel.task s) (v.calls.returned s)
      (v.calls.addressed s) (v.calls.waiting s) := by
    intro s hs'
    by_cases hold : s ∈ u.world.tree.alive
    · exact h.tally_step ht hc hw hold
    · obtain ⟨hr, ha, hwt⟩ := h.fresh_step hc hblock hold
      obtain ⟨hpend, hready, -⟩ := ht.born s hs' hold
      rw [hr, ha, hwt]
      refine Tally.working (by rw [hready]; exact nofun) (le_of_eq hpend.symm) ?_
      rw [hpend]
      rfl
  have hworking : v.calls.waiting v.world.kernel.current = none := by
    rw [hc]
    exact if_pos rfl
  refine ⟨hs, h.named.turn ht, ?_, hworking, htally, fun s hs' => ?_⟩
  · obtain ⟨l, hq⟩ := hs.queued
    rcases hq.current_tended with halive | hi
    · have hcur := htally _ halive
      rw [hworking] at hcur
      exact hcur.unmarked
    · -- the idle task makes no call
      rw [hidle] at hi
      have hold : u.world.kernel.Tended u.world.tree v.world.kernel.current := Or.inr hi
      have hdead : v.world.kernel.current ∉ u.world.tree.alive :=
        fun ha => h.sound.alive_ne ha hi
      have hb : u.world.blocks e v.world.kernel.current = false := by
        refine Bool.eq_false_iff.mpr (fun hb => hdead ?_)
        obtain ⟨rfl, heq⟩ := eq_block_of_blocks hb
        rw [heq]
        exact hblock rfl
      have had : u.world.addresses e v.world.kernel.current = false :=
        Bool.eq_false_iff.mpr (fun had => hdead (child_of_addresses had).1.1)
      exact fun hm => h.unmarked ht ((ht.marks _ hold hb had).2.mp hm)
  · exact h.fresh_step hc hblock (fun ha => hs' (ht.alive s ha))

/-- The balances at boot. -/
theorem tallied_boot (ram : Location → Byte) : (boot ram).Tallied := by
  obtain ⟨htree, hcur, -, -, -, -, htask, -⟩ := World.boot_frame ram
  have hstate : ((World.boot ram).kernel.task 8).state = .run := by
    rw [htask]
    rfl
  have hpend : ((World.boot ram).kernel.task 8).pendingUnblocks = 0 := by
    rw [htask]
    rfl
  refine ⟨(World.sound_boot ram).1, World.named_boot ram, ?_, rfl, fun s hs => ?_,
    fun _ _ => ⟨rfl, rfl, rfl⟩⟩
  · show ((World.boot ram).kernel.task (World.boot ram).kernel.current).state ≠ .blocked
    rw [hcur, hstate]
    exact nofun
  · have hs8 : s = 8 := by
      have hmem : s ∈ (World.boot ram).tree.alive := hs
      rw [htree] at hmem
      exact Finset.mem_singleton.mp hmem
    rw [hs8]
    exact Tally.working (by rw [show ((boot ram).world.kernel.task 8).state = .run from hstate]
                            exact nofun) (le_of_eq hpend.symm) hpend

/-! ## The law over one event -/

section Law

variable (h : u.Tallied) (he : e ≠ .exit) (hst : u.step e = some v)

include h he hst

/-- **The count is right** where every wait passes the CPU on. -/
theorem Tallied.law (hw : u.WaitsYield e) :
    (∀ s n, u.calling e s = some n → v.world.kernel.current = s → n < v.calls.addressed s)
      ∧ ∀ s, v.calls.returned s ≤ v.calls.addressed s := by
  obtain ⟨hworld, hc⟩ := step_eq_some_iff.mp hst
  have ht := h.sound.turn h.named h.running he hworld
  have hv := h.step he hw hst
  refine ⟨fun s n hcall hcur => ?_, fun s => ?_⟩
  · rw [calling] at hcall
    split_ifs at hcall with hb
    · exact absurd hcur (waits_of_yield ht hw hb.1 hb.2)
    · have halive : s ∈ u.world.tree.alive := by
        by_contra hdead
        rw [(h.fresh s hdead).2.2] at hcall
        exact absurd hcall nofun
      have htally := h.tally s halive
      have hmark := h.unmarked ht
      rw [hcall] at htally
      rw [hcur] at hmark
      obtain ⟨rfl, hlt⟩ := htally.lt_of_waiting hmark
      refine hlt.trans_le ?_
      rw [hc]
      show _ ≤ if _ then _ else _
      split_ifs
      · exact Nat.le_succ _
      · exact le_rfl
  · by_cases halive : s ∈ v.world.tree.alive
    · exact (hv.tally s halive).bounded
    · obtain ⟨hr, ha, -⟩ := hv.fresh s halive
      rw [hr, ha]

/-- **A wait that does not pass the CPU on returns at once.** -/
theorem Tallied.waitsYield
    (hwaits : ∀ s n, u.calling e s = some n → v.world.kernel.current = s →
      n < v.calls.addressed s) : u.WaitsYield e := by
  obtain ⟨hworld, hc⟩ := step_eq_some_iff.mp hst
  have ht := h.sound.turn h.named h.running he hworld
  rintro rfl hpend
  by_contra hy
  have hcur : v.world.kernel.current = u.world.kernel.current :=
    by_contra fun hne => hy ((ht.parked rfl hpend).2.2.mpr hne)
  have hcall : u.calling .block u.world.kernel.current
      = some (u.calls.addressed u.world.kernel.current) := by
    have hb : u.world.blocks .block u.world.kernel.current = true := decide_eq_true rfl
    rw [calling, if_pos ⟨hb, hpend⟩]
  have hlt := hwaits _ _ hcall hcur
  rw [hc] at hlt
  exact absurd hlt (lt_irrefl _)

/-- **No unblock is lost.** -/
theorem Tallied.kept (had : u.world.addresses e s = true) : v.Woken s
    ∨ (v.world.kernel.task s).pendingUnblocks
      = (u.world.kernel.task s).pendingUnblocks + 1 := by
  have ht := h.sound.turn h.named h.running he (step_eq_some_iff.mp hst).1
  obtain ⟨-, hwake, hcount⟩ := ht.unblocked s had
  by_cases hstate : (u.world.kernel.task s).state = .blocked
  · obtain ⟨hready, -, hmem⟩ := hwake hstate
    exact Or.inl ⟨hready, hmem⟩
  · exact Or.inr (hcount hstate).2

omit he in
/-- **`sys_unblock` returns 0** exactly to the parent of a blocked process. -/
theorem Tallied.reply_iff {pid : ℤ} (hpid : e = .unblock pid)
    (had : u.world.addresses e s = true) :
    (u.world.kernel.sysUnblock pid).1 = some 0 ↔ (u.world.kernel.task s).state = .blocked := by
  subst hpid
  have hi := World.current_ne (step_eq_some_iff.mp hst).1 rfl
  obtain ⟨l, hq⟩ := h.sound.queued
  have hfound := (h.sound.findChild_iff h.named hi).mpr had
  obtain ⟨hchild, -⟩ := child_of_addresses had
  by_cases hstate : (u.world.kernel.task s).state = .blocked
  · have hreply := (Kernel.sysUnblock_wakes hq hfound (Or.inl hchild.1)
      (h.sound.alive_ne hchild.1) (h.sound.guarded s hchild.1 _ hchild.2).1.symm hstate).1
    exact iff_of_true hreply hstate
  · have hreply := (Kernel.sysUnblock_counts hfound hstate).1
    rw [hreply]
    exact iff_of_false nofun hstate

omit he in
/-- **`sys_unblock` of a stranger** returns -1 and does nothing. -/
theorem Tallied.reply_stranger {pid : ℤ} (hpid : e = .unblock pid)
    (hnone : ∀ s, u.world.addresses e s = false) :
    (u.world.kernel.sysUnblock pid).1 = some (-1) ∧ v.world = u.world := by
  subst hpid
  obtain ⟨hworld, -⟩ := step_eq_some_iff.mp hst
  have hi := World.current_ne hworld rfl
  have hfound : u.world.kernel.findChild pid = none := by
    refine Option.eq_none_iff_forall_ne_some.mpr (fun c hc => ?_)
    have had := (h.sound.findChild_iff h.named hi).mp hc
    rw [hnone c] at had
    exact absurd had nofun
  obtain ⟨hk, htree⟩ := World.step_eq_some_iff.mp hworld
  have hkernel : (u.world.kernel.sysUnblock pid).2 = v.world.kernel :=
    Option.some_inj.mp (World.kernelStep_eq_some_iff.mp hk).2.1
  rw [Kernel.sysUnblock_stranger hfound] at hkernel ⊢
  refine ⟨rfl, ?_⟩
  have hw : v.world = ⟨v.world.kernel, v.world.tree⟩ := rfl
  rw [hw, ← hkernel, htree]
  rfl

/-- **The count is that of a semaphore** exactly if a wait passes the CPU
on. -/
theorem Tallied.counting_iff : u.Counting e v ↔ u.WaitsYield e := by
  constructor
  · exact fun hcount => h.waitsYield he hst hcount.waits
  · intro hw
    obtain ⟨hwaits, hbounded⟩ := h.law he hst hw
    exact ⟨hwaits, hbounded, fun s had => h.kept he hst had⟩

/-- **The law holds of one event** exactly if a wait passes the CPU on and an
unblock finds its process blocked. -/
theorem Tallied.semaphore_iff : u.Semaphore e v ↔ u.WaitsYield e ∧ u.FindsBlocked e := by
  constructor
  · refine fun hsem => ⟨(h.counting_iff he hst).mp hsem.toCounting, fun s had => ?_⟩
    cases e with
    | unblock pid => exact (h.reply_iff hst rfl had).mp (hsem.child pid rfl s had)
    | _ => exact absurd had Bool.false_ne_true
  · rintro ⟨hw, hfinds⟩
    exact
      { (h.counting_iff he hst).mpr hw with
        child := fun pid hpid s had => (h.reply_iff hst hpid had).mpr (hfinds s had)
        stranger := fun pid hpid hnone => h.reply_stranger hst hpid hnone }

end Law

/-! ## Runs -/

variable {ram : Location → Byte} {es : List Event}

/-- **The count, in a run.** It is that of a semaphore at every event of a run
without exits exactly if every wait passes the CPU on. -/
theorem counting_iff_waitsYield
    (hrun : Run Journal.step (fun _ e => e ≠ .exit) (boot ram) es u) :
    (∀ bs e cs v v', es = bs ++ e :: cs →
        Run Journal.step (fun _ e => e ≠ .exit) (boot ram) bs v → v.step e = some v' →
        v.Counting e v')
      ↔ Run Journal.step (fun v e => e ≠ .exit ∧ v.WaitsYield e) (boot ram) es u := by
  refine Run.steps_iff (I := Tallied) ?_ ?_ hrun (tallied_boot ram)
  · exact fun u e v h he hw hst => h.step he hw hst
  · exact fun u e v h he hst => h.counting_iff he hst

/-- **The semaphore, in a run.** The law holds of every event of a run without
exits exactly if every wait passes the CPU on and every unblock finds its
process blocked. -/
theorem semaphore_iff_of_run
    (hrun : Run Journal.step (fun _ e => e ≠ .exit) (boot ram) es u) :
    (∀ bs e cs v v', es = bs ++ e :: cs →
        Run Journal.step (fun _ e => e ≠ .exit) (boot ram) bs v → v.step e = some v' →
        v.Semaphore e v')
      ↔ Run Journal.step (fun v e => e ≠ .exit ∧ v.WaitsYield e ∧ v.FindsBlocked e)
        (boot ram) es u := by
  refine Run.steps_iff (I := Tallied) ?_ ?_ hrun (tallied_boot ram)
  · exact fun u e v h he hw hst => h.step he hw.1 hst
  · exact fun u e v h he hst => h.semaphore_iff he hst

/-- **The calls can be kept beside any run.** -/
theorem exists_journal {P : World → Event → Prop} {w : World}
    (hrun : Run World.step P (World.boot ram) es w) :
    ∃ u, u.world = w ∧ Run Journal.step (fun v e => P v.world e) (boot ram) es u := by
  refine hrun.lift (f := Journal.world) (x := boot ram) fun u e => ?_
  rw [step, Option.map_map]
  exact Option.map_id'

/-- **A child calls `sys_block` as soon as it runs**, with nothing counted: the
call returns at once, and nobody has called `sys_unblock`. -/
theorem not_semaphore_block :
    ∃ u v, Run Journal.step (fun _ e => e ≠ .exit) (boot (fun _ => 0)) [.fork, .tick] u
      ∧ u.step .block = some v ∧ ¬ u.Semaphore .block v := by
  obtain ⟨w, w', hrun, hst, hpend, hcur⟩ := World.exists_block_returns (fun _ => 0)
  obtain ⟨u, rfl, hboth⟩ := exists_journal
    ((Run.and_iff (R := fun e => e ≠ Event.exit)).mpr ⟨hrun, by decide⟩)
  have hrun' := hboth.mono fun _ _ hp => hp.2
  refine ⟨u, ⟨w', u.note .block w'⟩, hrun', step_eq_some_iff.mpr ⟨hst, rfl⟩, fun hsem => ?_⟩
  have hb : u.world.blocks .block u.world.kernel.current = true := decide_eq_true rfl
  have hcall : u.calling .block u.world.kernel.current
      = some (u.calls.addressed u.world.kernel.current) := by
    rw [calling, if_pos ⟨hb, hpend⟩]
  exact absurd (hsem.waits _ _ hcall hcur) (lt_irrefl _)

/-- A child calls `sys_block` with the last tick of its quantum, and its parent,
who runs then, calls `sys_unblock` for it. -/
theorem semaphore_iff_of_run_block :
    ∃ pid u v, Run Journal.step (fun _ e => e ≠ .exit) (boot (fun _ => 0))
        ([.fork, .tick] ++ List.replicate 9 .tick ++ [.block]) u
      ∧ u.world.addresses (.unblock pid) 7 = true ∧ u.step (.unblock pid) = some v
      ∧ ∀ bs e cs w w', [.fork, .tick] ++ List.replicate 9 .tick ++ [.block] ++ [.unblock pid]
          = bs ++ e :: cs →
        Run Journal.step (fun _ e => e ≠ .exit) (boot (fun _ => 0)) bs w → w.step e = some w' →
          w.Semaphore e w' := by
  obtain ⟨w, w₁, hrun, hst, hyields, hsound, hcur, hidle, hblocked, htree, hstuck, hmstuck⟩ :=
    World.exists_block_yields (fun _ => 0)
  -- the child is the only one
  have hchild : ∀ s, w₁.tree.Child w₁.kernel.current s ↔ s = 7 := by
    intro s
    rw [htree, hcur]
    revert s
    decide
  have hone : ∀ s, w₁.tree.Child w₁.kernel.current s → (w₁.kernel.task s).state = .blocked :=
    fun s hs => (hchild s).mp hs ▸ hblocked
  obtain ⟨w₂, hst₂⟩ := hsound.exists_unblock (by rw [hcur, hidle]; decide) hstuck hmstuck
    (w₁.kernel.task 7).pid hone
  have hmeets : Run World.step (fun v e => e ≠ .exit ∧ (e = .block →
      (v.kernel.task v.kernel.current).pendingUnblocks = 0 → v.kernel.Yields)
      ∧ ∀ s, v.addresses e s = true → (v.kernel.task s).state = .blocked) (World.boot (fun _ => 0))
      ([.fork, .tick] ++ List.replicate 9 .tick) w := by
    refine ((Run.and_iff (R := fun e => e = Event.fork ∨ e = .tick)).mpr
      ⟨hrun, by decide⟩).mono fun v e hp => ?_
    rcases hp.2 with rfl | rfl
    · exact ⟨nofun, nofun, nofun⟩
    · exact ⟨nofun, nofun, nofun⟩
  obtain ⟨u, hu, hgood⟩ := exists_journal
    (hmeets.snoc ⟨Event.noConfusion, fun _ _ => hyields, fun _ => Bool.noConfusion⟩ hst)
  have hfinds : u.FindsBlocked (.unblock (w₁.kernel.task 7).pid) := by
    intro s hs
    rw [hu] at hs ⊢
    exact hone s (of_decide_eq_true hs).1
  have hst' : u.step (.unblock (w₁.kernel.task 7).pid)
      = some ⟨w₂, u.note (.unblock (w₁.kernel.task 7).pid) w₂⟩ :=
    step_eq_some_iff.mpr ⟨hu ▸ hst₂, rfl⟩
  have hall := hgood.snoc ⟨Event.noConfusion, Event.noConfusion, hfinds⟩ hst'
  refine ⟨_, u, _, hgood.mono fun _ _ hp => hp.1, ?_, hst', ?_⟩
  · rw [hu]
    exact decide_eq_true ⟨(hchild 7).mpr rfl, rfl⟩
  · exact (semaphore_iff_of_run (hall.mono fun _ _ hp => hp.1)).mpr hall

end Journal

end ZeOS.Zeos
