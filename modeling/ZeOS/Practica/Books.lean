import ZeOS.Practica.Quantum

/-!
# The books of the scheduler

Where the time of a process goes is decided by a few calls of
`update_stats`, each of which reads the clock and charges the time since the
last call for that process to one of its counters. Everything else the
scheduler does leaves the counters alone. `Books` is what such a call reads
and writes, and the lemmas of this module reduce every function of `sched.c`
to its charges.
-/

namespace ZeOS.Practica

/-- The counters of the tasks, what each of them leaves the kernel through,
and the readings of the clock to come. -/
structure Books where
  stats : Slot → Stats
  epilogue : Slot → Epilogue
  ticks : ℕ → DWord

namespace Books

/-- A call of `update_stats`. -/
def charge (b : Books) (t : Slot) (v : Counter) : Books :=
  { b with
    stats := Function.update b.stats t
      { (b.stats t).add (b.ticks 0 - (b.stats t).elapsedTotalTicks) v with
        elapsedTotalTicks := b.ticks 0 }
    ticks := fun n => b.ticks (n + 1) }

/-- The kernel is entered. -/
def mark (b : Books) (t : Slot) (e : Epilogue) : Books :=
  { b with epilogue := Function.update b.epilogue t e }

/-- `total_trans` goes up. -/
def count (b : Books) (t : Slot) : Books :=
  { b with
    stats := Function.update b.stats t
      { b.stats t with totalTrans := (b.stats t).totalTrans + 1 } }

/-- The CPU goes from one task to another. -/
def handOver (b : Books) (old new : Slot) : Books :=
  ((b.charge old .systemTicks).charge new .readyTicks).count new

/-- The kernel is left. -/
def close (b : Books) (t : Slot) : Books :=
  match b.epilogue t with
  | .interruptHandler => b.charge t .systemTicks
  | .systemCallHandler => b
  | .cpuIdle => b

end Books

namespace Sched

variable {s : Sched} {a : Schedule}

/-- The books of a state of the scheduler. -/
def books (s : Sched) : Books where
  stats t := (s.task t).pStats
  epilogue t := (s.task t).epilogue
  ticks := s.ticks

/-- A change of a task struct that keeps its counters. -/
theorem books_modifyTask (s : Sched) (t : Slot) (f : TaskStruct → TaskStruct)
    (hf : ∀ c, (f c).pStats = c.pStats ∧ (f c).epilogue = c.epilogue) :
    (s.modifyTask t f).books = s.books := by
  simp only [books, modifyTask, Books.mk.injEq, and_true]
  constructor
  · funext u
    split_ifs
    · exact (hf _).1
    · rfl
  · funext u
    split_ifs
    · exact (hf _).2
    · rfl

theorem books_updateStats (s : Sched) (t : Slot) (v : Counter) :
    (s.updateStats t v).books = s.books.charge t v := by
  simp only [books, updateStats, getTicks, modifyTask, Books.charge, Books.mk.injEq, and_true]
  constructor
  · funext u
    rw [Function.update_apply]
    split_ifs with hu
    · rw [hu]
    · rfl
  · funext u
    split_ifs <;> rfl

theorem books_enter (s : Sched) (e : Epilogue) :
    (s.enter e).books = s.books.mark s.current e := by
  simp only [books, enter, modifyTask, Books.mark, Books.mk.injEq, and_true]
  constructor
  · funext u
    split_ifs <;> rfl
  · funext u
    rw [Function.update_apply]
    split_ifs <;> rfl

theorem books_leave (s : Sched) : s.leave.books = s.books.close s.current := by
  unfold leave Books.close
  show _ = match s.currentTask.epilogue with
    | .interruptHandler => s.books.charge s.current .systemTicks
    | .systemCallHandler => s.books
    | .cpuIdle => s.books
  cases s.currentTask.epilogue with
  | interruptHandler => exact books_updateStats s _ _
  | systemCallHandler => rfl
  | cpuIdle => rfl

theorem books_linkTail (s : Sched) (new head : Node) : (s.linkTail new head).books = s.books := by
  unfold linkTail
  split <;> rfl

theorem books_unlink (s : Sched) (entry : Node) : (s.unlink entry).books = s.books := by
  unfold unlink
  dsimp only
  split <;> rfl

theorem books_updateProcessStateRr (s : Sched) (t : Slot) :
    (s.updateProcessStateRr t (some .readyqueue)).books = s.books.charge t .systemTicks := by
  have h : (if (s.task t).state ≠ .run then s.unlink (.task t) else s).books = s.books := by
    split_ifs
    · exact books_unlink s _
    · rfl
  unfold updateProcessStateRr
  generalize (if (s.task t).state ≠ .run then s.unlink (.task t) else s) = s₁ at h
  simp only [ne_eq, not_true_eq_false, if_false]
  rw [books_modifyTask _ t (fun c => { c with state := .ready }) fun _ => ⟨rfl, rfl⟩,
    books_updateStats, books_linkTail, h]

theorem books_taskSwitch (s : Sched) (ebp : DWord) (t : Slot) :
    (s.taskSwitch ebp t).books = s.books := by
  have h := books_modifyTask (s.setCr3 (s.getDir t)) s.current
    (fun c => { c with registerEsp := ebp }) fun _ => ⟨rfl, rfl⟩
  exact h

theorem books_dispatch (s : Sched) (ebp : DWord) (t : Slot) :
    (s.dispatch ebp t).books = s.books.handOver s.current t := by
  have h : ({ s.modifyTask t (fun c => { c with state := .run }) with
      remainingQuantum :=
        (s.modifyTask t (fun c => { c with state := .run })).getQuantum t } : Sched).books
      = s.books :=
    books_modifyTask s t (fun c => { c with state := .run }) fun _ => ⟨rfl, rfl⟩
  unfold dispatch
  dsimp only
  rw [books_taskSwitch]
  set s₁ : Sched := { s.modifyTask t (fun c => { c with state := .run }) with
    remainingQuantum := (s.modifyTask t (fun c => { c with state := .run })).getQuantum t }
  set s₂ := s₁.updateStats s₁.current .systemTicks
  have hcount : ∀ s : Sched, (s.modifyTask t (fun c =>
      { c with pStats := { c.pStats with totalTrans := c.pStats.totalTrans + 1 } })).books
      = s.books.count t := by
    intro s
    simp only [books, modifyTask, Books.count, Books.mk.injEq, and_true]
    constructor
    · funext u
      rw [Function.update_apply]
      split_ifs with hu
      · rw [hu]
      · rfl
    · funext u
      split_ifs <;> rfl
  rw [hcount, books_updateStats, books_updateStats, h]
  rfl

/-- **`sched_next_rr` hands over** to whoever is current after it. -/
theorem books_schedNextRr (s : Sched) (ebp : DWord) (hdown : (s.schedNextRr ebp).stuck = false) :
    (s.schedNextRr ebp).books = s.books.handOver s.current (s.schedNextRr ebp).current := by
  obtain ⟨s', t, he, hs'⟩ := exists_dispatch s ebp hdown
  have hsame : s'.books = s.books ∧ s'.current = s.current := by
    rcases hs' with rfl | ⟨u, rfl⟩
    · exact ⟨rfl, rfl⟩
    · exact ⟨books_unlink s _, current_unlink s _⟩
  rw [he, books_dispatch, hsame.1, hsame.2]
  rfl

/-- **A yield** charges the task that goes and hands over. -/
theorem books_forceTaskSwitch (h : Threads s a) (hdown : s.stuck = false) (ebp : DWord) :
    (s.forceTaskSwitch ebp).books
      = (s.books.charge s.current .systemTicks).handOver s.current a.rotate.current := by
  obtain ⟨hcur, hnext, hst⟩ := forceTaskSwitch_next h hdown ebp
  unfold forceTaskSwitch at hst hnext ⊢
  rw [books_schedNextRr _ ebp hst, books_updateProcessStateRr, hcur, hnext]

/-- **The clock** yields for the current task if its turn is over and
somebody waits. -/
theorem books_schedule (h : Threads s a) (hdown : s.stuck = false) (ebp : DWord) :
    (s.schedule ebp).books = if s.remainingQuantum = 1 ∧ a.ready ≠ [] then
        (s.books.charge s.current .systemTicks).handOver s.current a.rotate.current
      else s.books := by
  rcases schedule_cases h ebp with ⟨hsw, he⟩ | ⟨hsw, n, he⟩
  · rw [if_pos hsw, he]
    exact books_forceTaskSwitch (s := s.updateSchedDataRr) (h.same (same_quantum s _)) hdown ebp
  · rw [if_neg hsw, he]
    rfl

end Sched

end ZeOS.Practica
