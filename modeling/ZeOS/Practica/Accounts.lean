import Mathlib.Data.BitVec
import ZeOS.Practica.Books

/-!
# Accounts

The statistics of a process are to say how long it has been in user mode, in
kernel mode and in the ready queue. An account keeps the true totals of a
process. Its instants are the readings of the clock where there are any – the
scheduler's two readings are the instants one task leaves the CPU and another
one takes it – and are given with the event where there are none. All are
clock values modulo 2^32, of which every sequence is one of a non-decreasing
clock.

The account of a process and the counters the code keeps for it go through
the same charges; `Books.Kept` is that they agree, and one lemma for each
charge says that they go on agreeing.
-/

namespace ZeOS.Practica

/-! ## Accounts -/

/-- **The account of a process**: the totals of its time in each mode, and
since when it is in the one it is in. -/
structure Account where
  user : DWord
  system : DWord
  ready : DWord
  since : DWord

/-- Time passes in a mode. -/
def Account.add (acc : Account) (d : DWord) : Counter → Account
  | .userTicks => { acc with user := acc.user + d }
  | .systemTicks => { acc with system := acc.system + d }
  | .readyTicks => { acc with ready := acc.ready + d }

/-- The three counters are the totals of the account. -/
def Stats.Matches (st : Stats) (acc : Account) : Prop :=
  st.userTicks = acc.user ∧ st.systemTicks = acc.system ∧ st.readyTicks = acc.ready

abbrev Ledger := Slot → Account

/-- A process has been in a mode up to an instant. -/
def Ledger.upTo (l : Ledger) (t : Slot) (now : DWord) (v : Counter) : Ledger :=
  Function.update l t { (l t).add (now - (l t).since) v with since := now }

/-- Through `sched_next_rr`, whose readings are the first two, and the return
of the task that runs next, which reads the clock once more if an interrupt
handler is what it returns through. -/
def Ledger.dispatch (l : Ledger) (old new : Slot) (ticks : ℕ → DWord) (e : Epilogue)
    (leave : DWord) : Ledger :=
  ((l.upTo old (ticks 0) .systemTicks).upTo new (ticks 1) .readyTicks).upTo new
    (if e = .interruptHandler then ticks 2 else leave) .systemTicks

/-- A stay in the kernel, from user mode and back. -/
def Ledger.visit (l : Ledger) (t : Slot) (enter leave : DWord) : Ledger :=
  (l.upTo t enter .userTicks).upTo t leave .systemTicks

/-! ## Timed events -/

/-- An event, or a system call that leaves nothing behind: `sys_getpid`,
`sys_gettime`, `sys_write` and the like, or one that is refused. -/
inductive Act where
  | event (e : Event)
  | quiet

/-- An act with its times: when the current task enters the kernel by a
system call, and when the kernel is left through `system_call_handler`. -/
structure Timing where
  act : Act
  enter : DWord
  leave : DWord

namespace Kernel

/-- A quiet call goes through `system_call_handler` like any other. -/
def act (k : Kernel) : Act → Option Kernel
  | .event e => k.step e
  | .quiet => if k.sched.current = k.sched.idleTask then none else some (k.systemCall id)

/-- The task an event gives the CPU to, if it calls `sched_next_rr`. -/
def next (k : Kernel) : Event → Option Slot
  | .tick _ => if k.sched.remainingQuantum = 1 then k.readySlots.head? else none
  | .yield _ => (k.readySlots ++ [k.sched.current]).head?
  | .exit _ => some (k.readySlots.headD k.sched.idleTask)
  | _ => none

/-- What a task leaves the kernel through, where the current one has entered
it by a call. -/
def epilogueOf (k : Kernel) (t : Slot) : Epilogue := (k.entered.sched.task t).epilogue

/-- The accounts through a dispatch whose first reading is the `n`-th. -/
def dispatched (k : Kernel) (l : Ledger) (n : ℕ) (new : Slot) (leave : DWord) : Ledger :=
  l.dispatch k.sched.current new (fun i => k.sched.ticks (n + i)) (k.epilogueOf new) leave

/-- The accounts through an interrupt that switches to no other task. -/
def interruptVisit (k : Kernel) (l : Ledger) : Ledger :=
  l.visit k.sched.current (k.sched.ticks 0) (k.sched.ticks 1)

/-- **The accounts after an act.** -/
def account (k : Kernel) (l : Ledger) (x : Timing) : Ledger :=
  match x.act with
  | .quiet => l.visit k.sched.current x.enter x.leave
  | .event (.load _) => l
  | .event (.store addr _) =>
    if k.mm.userCanStore k.sched.cr3 addr.toNat then l else k.interruptVisit l
  | .event (.key _ _) => k.interruptVisit l
  | .event (.fault _) => k.interruptVisit l
  | .event (.tick ebp) =>
    match k.next (.tick ebp) with
    | none => k.interruptVisit l
    | some new =>
      k.dispatched (l.upTo k.sched.current (k.sched.ticks 0) .userTicks) 2 new x.leave
  | .event (.yield ebp) =>
    match k.next (.yield ebp) with
    | none => l
    | some new => k.dispatched (l.upTo k.sched.current x.enter .userTicks) 1 new x.leave
  | .event (.exit ebp) =>
    match k.next (.exit ebp) with
    | none => l
    | some new => k.dispatched (l.upTo k.sched.current x.enter .userTicks) 0 new x.leave
  | .event (.fork ebp) =>
    let l := l.visit k.sched.current x.enter x.leave
    match k.freeSlots.head? with
    | some c =>
      -- the child's account is opened by `init_stats`
      if 0 < (k.entered.sysFork ebp).1 then Function.update l c ⟨0, 0, 0, k.sched.ticks 0⟩ else l
    | none => l
  | .event _ => l.visit k.sched.current x.enter x.leave

end Kernel

/-- A kernel with the true accounts of its processes. -/
structure Timed where
  kernel : Kernel
  ledger : Ledger

namespace Timed

/-- The booted kernel, once the first process is in user mode. Its account
is open since `init_stats`, the third reading. -/
def boot (M : Machine) (leave : DWord) : Timed :=
  ⟨M.boot, fun _ => ⟨0, leave - M.ticks 2, 0, leave⟩⟩

def step (t : Timed) (x : Timing) : Option Timed :=
  (t.kernel.act x.act).map fun k => ⟨k, t.kernel.account t.ledger x⟩

/-- **The statistics are those of the accounts**, of every live process but
the idle task. A wait in the ready queue is entered when it is over. -/
def Attributed (t : Timed) : Prop :=
  ∀ p, t.kernel.Live p → p ≠ t.kernel.sched.idleTask →
    (t.kernel.sched.task p).pStats.Matches (t.ledger p)

/-- A task that leaves the kernel through no interrupt handler leaves it at
the instant of its last reading. -/
def Prompt (t : Timed) (new : Slot) (reading leave : DWord) : Prop :=
  t.kernel.epilogueOf new ≠ .interruptHandler → leave = reading

/-- **No time passes unread**: none in user mode before a system call, and
none in kernel mode before a return through `system_call_handler`. -/
def Punctual (t : Timed) (x : Timing) : Prop :=
  match x.act with
  | .event (.load _) => True
  | .event (.store _ _) => True
  | .event (.key _ _) => True
  | .event (.fault _) => True
  | .event (.tick ebp) => ∀ new, t.kernel.next (.tick ebp) = some new →
      t.Prompt new (t.kernel.sched.ticks 3) x.leave
  | .event (.yield ebp) => x.enter = (t.ledger t.kernel.sched.current).since
      ∧ ∀ new, t.kernel.next (.yield ebp) = some new →
        t.Prompt new (t.kernel.sched.ticks 2) x.leave
  | .event (.exit ebp) => ∀ new, t.kernel.next (.exit ebp) = some new →
      new ≠ t.kernel.sched.idleTask → t.Prompt new (t.kernel.sched.ticks 1) x.leave
  | _ => x.enter = (t.ledger t.kernel.sched.current).since ∧ x.leave = x.enter

end Timed

/-! ## Charges and accounts -/

namespace Ledger

variable {l : Ledger} {t p : Slot} {now now' : DWord} {v : Counter}

theorem upTo_of_ne (h : p ≠ t) : l.upTo t now v p = l p := Function.update_of_ne h _ l

theorem upTo_self : l.upTo t now v t = { (l t).add (now - (l t).since) v with since := now } :=
  Function.update_self t _ l

/-- Time in a mode adds up. -/
theorem upTo_upTo : (l.upTo t now v).upTo t now' v = l.upTo t now' v := by
  funext p
  by_cases hp : p = t
  · subst hp
    rw [upTo_self, upTo_self, upTo_self]
    have hsum : ∀ x y : DWord, x + (now - y) + (now' - now) = x + (now' - y) := by
      intro x y
      rw [add_assoc, sub_add_sub_cancel']
    cases v <;> simp only [Account.add, hsum]
  · rw [upTo_of_ne hp, upTo_of_ne hp, upTo_of_ne hp]

/-- No time at all changes nothing. -/
theorem upTo_since : l.upTo t (l t).since v = l := by
  refine (Function.update_eq_self_iff).mpr ?_
  cases v <;> simp [Account.add]

/-- The user time changes in user mode only. -/
theorem upTo_user (hv : v ≠ .userTicks) : (l.upTo t now v p).user = (l p).user := by
  by_cases hp : p = t
  · subst hp
    rw [upTo_self]
    cases v with
    | userTicks => exact absurd rfl hv
    | systemTicks => rfl
    | readyTicks => rfl
  · rw [upTo_of_ne hp]

end Ledger

namespace Books

variable {b : Books} {l : Ledger} {t p c new : Slot} {now : DWord} {v : Counter}

/-- **The counters of a process are its account**, up to the same instant. -/
def Kept (b : Books) (l : Ledger) (p : Slot) : Prop :=
  (b.stats p).Matches (l p) ∧ (b.stats p).elapsedTotalTicks = (l p).since

/-- Two sets of statistics with the same counters, up to the same instant. -/
def SameTimes (st st' : Stats) : Prop :=
  st'.userTicks = st.userTicks ∧ st'.systemTicks = st.systemTicks
    ∧ st'.readyTicks = st.readyTicks ∧ st'.elapsedTotalTicks = st.elapsedTotalTicks

theorem SameTimes.refl (st : Stats) : SameTimes st st := ⟨rfl, rfl, rfl, rfl⟩

theorem Kept.congr (h : b.Kept l p) {b' : Books} {l' : Ledger}
    (hst : SameTimes (b.stats p) (b'.stats p)) (hl : l' p = l p) : b'.Kept l' p := by
  obtain ⟨hu, hs, hr, he⟩ := hst
  rw [Kept, Stats.Matches, hu, hs, hr, he, hl]
  exact h

/-- Another process does not matter. -/
theorem Kept.upTo_of_ne (h : b.Kept l p) (hp : p ≠ t) : b.Kept (l.upTo t now v) p := by
  rw [Kept, Ledger.upTo_of_ne hp]
  exact h

/-- **A charge at the instant of the account.** -/
theorem Kept.charge (h : b.Kept l p) (t : Slot) (v : Counter) :
    (b.charge t v).Kept (l.upTo t (b.ticks 0) v) p := by
  by_cases hp : p = t
  · subst hp
    obtain ⟨⟨hu, hs, hr⟩, he⟩ := h
    rw [Kept, Ledger.upTo_self, Books.charge]
    dsimp only
    rw [Function.update_self, he]
    cases v with
    | userTicks => exact ⟨⟨congrArg (· + _) hu, hs, hr⟩, rfl⟩
    | systemTicks => exact ⟨⟨hu, congrArg (· + _) hs, hr⟩, rfl⟩
    | readyTicks => exact ⟨⟨hu, hs, congrArg (· + _) hr⟩, rfl⟩
  · rw [Kept, Ledger.upTo_of_ne hp, Books.charge]
    dsimp only
    rw [Function.update_of_ne hp]
    exact h

theorem Kept.count (h : b.Kept l p) (t : Slot) : (b.count t).Kept l p := by
  by_cases hp : p = t
  · subst hp
    rw [Kept, Books.count]
    dsimp only
    rw [Function.update_self]
    exact h
  · rw [Kept, Books.count]
    dsimp only
    rw [Function.update_of_ne hp]
    exact h

/-- The accounts through the two readings of `sched_next_rr`. -/
theorem Kept.handOver (h : b.Kept l p) (c new : Slot) :
    (b.handOver c new).Kept
      ((l.upTo c (b.ticks 0) .systemTicks).upTo new (b.ticks 1) .readyTicks) p :=
  ((h.charge c .systemTicks).charge new .readyTicks).count new

/-- The account of the task that leaves the kernel. -/
theorem Kept.close (h : b.Kept l p) (new : Slot)
    (hnow : p = new → b.epilogue new ≠ .interruptHandler → now = (l new).since) :
    (b.close new).Kept (l.upTo new (if b.epilogue new = .interruptHandler then b.ticks 0 else now)
      .systemTicks) p := by
  have hother : b.epilogue new ≠ .interruptHandler → b.Kept (l.upTo new now .systemTicks) p := by
    intro he
    by_cases hp : p = new
    · rw [hnow hp he, Ledger.upTo_since]
      exact h
    · exact h.upTo_of_ne hp
  unfold Books.close
  cases he : b.epilogue new with
  | interruptHandler =>
    rw [if_pos rfl]
    exact h.charge new .systemTicks
  | systemCallHandler | cpuIdle =>
    rw [if_neg (by simp)]
    exact hother (by simp [he])

/-- **A dispatch** keeps the accounts, if the task leaves promptly. -/
theorem Kept.dispatch (h : b.Kept l p) (c new : Slot)
    (hnow : p = new → b.epilogue new ≠ .interruptHandler → now = b.ticks 1) :
    ((b.handOver c new).close new).Kept (l.dispatch c new b.ticks (b.epilogue new) now) p := by
  refine (h.handOver c new).close new (fun hp he => ?_)
  rw [Ledger.upTo_self]
  exact hnow hp he

/-- A task that is found to have the right counters has left promptly. -/
theorem Kept.prompt (h : b.Kept l new) (c : Slot) (he : b.epilogue new ≠ .interruptHandler)
    (hm : (((b.handOver c new).close new).stats new).Matches
      (l.dispatch c new b.ticks (b.epilogue new) now new)) : now = b.ticks 1 := by
  have hover := h.handOver c new
  set l₁ := (l.upTo c (b.ticks 0) .systemTicks).upTo new (b.ticks 1) .readyTicks with hl₁
  have hclose : ((b.handOver c new).close new) = b.handOver c new := by
    have he' : (b.handOver c new).epilogue new ≠ .interruptHandler := he
    unfold Books.close
    cases hb : (b.handOver c new).epilogue new with
    | interruptHandler => exact absurd hb he'
    | systemCallHandler => rfl
    | cpuIdle => rfl
  have hsys := hm.2.1
  rw [hclose, Ledger.dispatch, if_neg he, ← hl₁, Ledger.upTo_self, hover.1.2.1] at hsys
  replace hsys : (l₁ new).system = (l₁ new).system + (now - (l₁ new).since) := hsys
  have hsince : (l₁ new).since = b.ticks 1 := by rw [hl₁, Ledger.upTo_self]
  rw [← hsince]
  bv_omega

/-- What a hand-over and a return leave of the user time. -/
theorem userTicks_handOver_close : (((b.handOver c new).close new).stats p).userTicks
    = (b.stats p).userTicks := by
  have hcharge : ∀ (b : Books) (t : Slot) (v : Counter), v ≠ .userTicks →
      ((b.charge t v).stats p).userTicks = (b.stats p).userTicks := by
    intro b t v hv
    rw [Books.charge]
    dsimp only
    by_cases hp : p = t
    · subst hp
      rw [Function.update_self]
      cases v with
      | userTicks => exact absurd rfl hv
      | systemTicks => rfl
      | readyTicks => rfl
    · rw [Function.update_of_ne hp]
  have hcount : ∀ (b : Books) (t : Slot), ((b.count t).stats p).userTicks
      = (b.stats p).userTicks := by
    intro b t
    rw [Books.count]
    dsimp only
    by_cases hp : p = t
    · subst hp
      rw [Function.update_self]
    · rw [Function.update_of_ne hp]
  have hover : ((b.handOver c new).stats p).userTicks = (b.stats p).userTicks := by
    rw [handOver, hcount, hcharge _ _ _ (by simp), hcharge _ _ _ (by simp)]
  rw [← hover]
  unfold Books.close
  split
  · exact hcharge _ _ _ (by simp)
  · rfl
  · rfl

end Books

end ZeOS.Practica
