import ZeOS.Practica.Taken

/-!
# The queues partition the slots

Between two operations of the kernel every slot of the task array is in one
place – waiting to be handed out, waiting to run, running, or the idle slot
that waits outside the queues – and the pointers of both queues are rings.
The schedule a reachable state follows is such a partition by construction,
so what remains is to read it off the pointers. That no operation applies
`list_del` to a node that is not linked is one half of it; the other is that
the operations go through.
-/

namespace ZeOS.Practica

namespace Kernel

variable {k : Kernel} {a : Schedule}

/-- The slots in the order of the places they are in. -/
def places (k : Kernel) : List Slot :=
  k.freeSlots ++ k.readySlots ++
    k.sched.current :: if k.sched.current = k.sched.idleTask then [] else [k.sched.idleTask]

/-- **The queue partition.** -/
structure QueuesPartition (k : Kernel) : Prop where
  /-- The free queue is a circular doubly linked list. -/
  freequeue : k.sched.links.IsRing .freequeue (k.freeSlots.map .task)
  /-- So is the ready queue. -/
  readyqueue : k.sched.links.IsRing .readyqueue (k.readySlots.map .task)
  /-- Every slot is in one place, once. -/
  once : k.places.Perm (List.finRange nrTasks)
  ready_state : ∀ s ∈ k.readySlots, (k.sched.task s).state = .ready
  current_state : (k.sched.task k.sched.current).state = .run
  idle_not_queued : k.sched.idleTask ∉ k.freeSlots ∧ k.sched.idleTask ∉ k.readySlots
  idle_alone : k.sched.current = k.sched.idleTask → k.readySlots = []
  /-- `list_del` has only ever been applied to a linked node. -/
  linked : k.sched.unlinkedDel = false

/-- A state that follows a schedule has its partition. -/
theorem queuesPartition_of_threads (h : k.sched.Threads a) : k.QueuesPartition := by
  have hfree := freeSlots_eq h
  have hready := readySlots_eq h
  refine ⟨?_, ?_, ?_, ?_, ?_, ?_, ?_, h.linked⟩
  · rw [hfree]
    exact h.freeRing
  · rw [hready]
    exact h.readyRing
  · have hnd : (a.free ++ a.ready ++
        a.current :: if a.current = a.idle then [] else [a.idle]).Nodup := by
      have h₁ := a.nodup_free
      have h₂ := a.nodup_ready
      have h₃ := a.disjoint
      have h₄ := a.current_notMem
      have h₅ := a.idle_notMem
      split_ifs <;> grind
    rw [places, hfree, hready, h.current_eq, h.idle_eq]
    refine (List.perm_ext_iff_of_nodup hnd (List.nodup_finRange nrTasks)).mpr (fun s => ?_)
    refine iff_of_true ?_ (List.mem_finRange s)
    rcases a.cover s with hs | hs | hs | hs
    · exact List.mem_append_left _ (List.mem_append_left _ hs)
    · exact List.mem_append_left _ (List.mem_append_right _ hs)
    · exact List.mem_append_right _ (hs ▸ List.mem_cons_self)
    · refine List.mem_append_right _ ?_
      split_ifs with hc
      · rw [hs, hc]
        exact List.mem_cons_self
      · rw [hs]
        simp
  · rw [hready]
    exact h.state_ready
  · rw [h.current_eq]
    exact h.state_current
  · rw [hfree, hready, h.idle_eq]
    exact a.idle_notMem
  · rw [hready, h.current_eq, h.idle_eq]
    exact a.idle_alone

end Kernel

/-- Once the idle task runs, a step leaves the schedule alone: the task is
not one that calls the kernel, and the clock finds nobody to switch to. -/
theorem Outcome.idle_stays {a a' : Schedule} {m m' : Mm} {e : Event} (h : Outcome a m e a' m')
    (hen : e.byTask = false) (hidle : a.current = a.idle) : a' = a := by
  cases h with
  | switch ebp hready => exact absurd (a.idle_alone hidle) hready
  | stay ebp => rfl
  | key c past => rfl
  | load | store | storeFault | fault | forkNone | forkFail | forkOk | exit | yield | shmat | shmdt
  | shmrm | read | getStats => exact absurd hen (by simp [Event.byTask])

/-- **The operations on the queues go through**: the clock ticks, a running
process yields and exits, and it forks or is refused, short of an identifier
or a count of references past its `int`, or of a table that would be left. -/
structure Kernel.OperatesQueues (k : Kernel) : Prop where
  tick : ∀ ebp, ∃ k', k.step (.tick ebp) = some k'
  yield : k.sched.current ≠ k.sched.idleTask → ∀ ebp, ∃ k', k.step (.yield ebp) = some k'
  exit : k.sched.current ≠ k.sched.idleTask → k.CountsFitAfter (fun i => -k.mapsSegment i) →
    ∀ ebp, ∃ k', k.step (.exit ebp) = some k'
  fork : k.sched.current ≠ k.sched.idleTask → k.sched.globalPid + 1 < 2 ^ 31 →
    (∀ p ∈ dataPages, getFrame k.currentPt p < totalPages) →
      k.CountsFitAfter (fun i => k.mapsSegment i) → ∀ ebp, ∃ k', k.step (.fork ebp) = some k'
  forkFail : k.sched.current ≠ k.sched.idleTask →
    k.freeSlots = [] ∨ (freeFrames k.mm.physMem).length < numPagData →
      ∀ ebp, ∃ k', k.step (.fork ebp) = some k'

theorem operatesQueues_of_reachable {M : Machine} {k : Kernel} (h : Reachable M k) :
    k.OperatesQueues where
  tick _ := (takes_iff h _).mpr ⟨fun he => absurd he Bool.false_ne_true, trivial⟩
  yield hbusy _ := (takes_iff h _).mpr ⟨fun _ => hbusy, trivial⟩
  exit hbusy hfit _ := (takes_iff h _).mpr ⟨fun _ => hbusy, hfit⟩
  fork hbusy hpid hframes hfit _ :=
    (takes_iff h _).mpr ⟨fun _ => hbusy, Or.inr (Or.inr ⟨hpid, hframes, hfit⟩)⟩
  forkFail hbusy hfail _ := (takes_iff h _).mpr
    ⟨fun _ => hbusy, hfail.imp_right Or.inl⟩

/-- **The queue partition holds in every reachable state**, the operations on
the queues go through there, and where the idle task runs, it goes on running
with nobody waiting. -/
theorem queues_partition (M : Machine) (k : Kernel) (h : Reachable M k) :
    k.QueuesPartition ∧ k.OperatesQueues ∧
      (k.sched.current = k.sched.idleTask →
        ∀ es k', Run Kernel.step (fun _ _ => True) k es k' →
          k'.sched.current = k'.sched.idleTask ∧ k'.readySlots = []) := by
  obtain ⟨a, hf⟩ := h.follows
  refine ⟨Kernel.queuesPartition_of_threads hf.threads, operatesQueues_of_reachable h,
    fun hidle es k' hrun => ?_⟩
  have hidle' : a.current = a.idle := by
    rwa [hf.threads.current_eq, hf.threads.idle_eq] at hidle
  have hrun' : k'.Follows a := by
    refine hrun.invariant (I := fun k => k.Follows a) ?_ hf
    intro k e k' hf _ hst
    obtain ⟨a', hf', hout, hen⟩ := hf.step hst
    have hby : e.byTask = false := by
      rw [Bool.eq_false_iff]
      exact fun hby => hen hby hidle'
    rwa [Outcome.idle_stays hout hby hidle'] at hf'
  rw [hrun'.threads.current_eq, hrun'.threads.idle_eq, Kernel.readySlots_eq hrun'.threads]
  exact ⟨hidle', a.idle_alone hidle'⟩

/-- The first task forks and exits, the clock ticks, and the child exits too:
the idle task runs, and goes on running at the next tick. -/
theorem queues_partition_exits :
    ∃ k k', Run Kernel.step (fun _ _ => True) Machine.sample.boot
        [.fork 0, .exit 0, .tick 0, .exit 0] k
      ∧ k.QueuesPartition ∧ k.freeSlots.length = 9 ∧ k.sched.current = k.sched.idleTask
      ∧ k.step (.tick 0) = some k' ∧ k'.sched.current = k'.sched.idleTask ∧ k'.readySlots = [] := by
  obtain ⟨k₁, hst₁, hf₁, hmm₁, -⟩ := exists_first_fork Machine.sample 0
  have hbusy₁ : firstFork.current ≠ firstFork.idle := by decide
  -- no count has moved far
  have hcounts₁ : k₁.mm.CountsWithin (0 + 740) :=
    hmm₁ ▸ (countsWithin_boot Machine.sample).fork (by decide)
  have hcounts₂ := hcounts₁.exit firstFork.current
  obtain ⟨k₂, hst₂, hf₂, hmm₂⟩ := hf₁.exists_exit hbusy₁ (hcounts₂.fit (by decide)) 0
  obtain ⟨k₃, hst₃⟩ := Kernel.exists_tick hf₂ 0
  -- nobody waits, so the tick switches to nobody
  obtain ⟨a₃, hf₃, ho, -⟩ := hf₂.step hst₃
  obtain ⟨rfl, hmm₃⟩ : a₃ = firstFork.retire hbusy₁ ∧ k₃.mm = k₂.mm := by
    generalize k₂.mm = m, k₃.mm = m' at ho
    cases ho with
    | stay => exact ⟨rfl, rfl⟩
    | switch ebp hready => exact absurd rfl hready
  have hbusy₂ : (firstFork.retire hbusy₁).current ≠ (firstFork.retire hbusy₁).idle :=
    show (2 : Slot) ≠ 0 by decide
  have hcounts₃ : k₃.mm.CountsWithin (0 + 740 + 740) := by
    rw [hmm₃, hmm₂]
    exact hcounts₂
  obtain ⟨k, hst, hf, -⟩ := hf₃.exists_exit hbusy₂ ((hcounts₃.exit _).fit (by decide)) 0
  have hrun : Run Kernel.step (fun _ _ => True) Machine.sample.boot
      [.fork 0, .exit 0, .tick 0, .exit 0] k :=
    (((Run.single trivial hst₁).snoc trivial hst₂).snoc trivial hst₃).snoc trivial hst
  obtain ⟨hpart, hops, hidle⟩ := queues_partition Machine.sample k ⟨_, hrun⟩
  obtain ⟨k', hst'⟩ := hops.tick 0
  have hcurrent : k.sched.current = k.sched.idleTask := by
    rw [hf.threads.current_eq, hf.threads.idle_eq]
    rfl
  have hlen : k.freeSlots.length = 9 := by
    rw [Kernel.freeSlots_eq hf.threads]
    rfl
  exact ⟨k, k', hrun, hpart, hlen, hcurrent, hst',
    hidle hcurrent [.tick 0] k' (Run.single trivial hst')⟩

end ZeOS.Practica
