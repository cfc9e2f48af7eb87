import ZeOS.Practica.Schedule
import ZeOS.Practica.System

/-!
# The scheduler follows its schedule

`Sched.Threads s a` says that the pointers and the task array of `s` are
those of the schedule `a`. It is shown of every function of `sched.c` a
clock tick, a yield, a fork or an exit goes through, each of them a move of
the schedule or no move at all.

Most of what these functions write – statistics, quanta, saved stack
pointers – a schedule does not see. `Sched.Same` collects what it does see,
so that a function which leaves that alone is dealt with in one line.
-/

namespace ZeOS.Practica

namespace Sched

/-- The task links of a list of slots. -/
abbrev nodes (l : List Slot) : List Node := l.map Node.task

/-- **The state of the scheduler is the one the schedule describes.** -/
structure Threads (s : Sched) (a : Schedule) : Prop where
  freeRing : s.links.IsRing .freequeue (nodes a.free)
  readyRing : s.links.IsRing .readyqueue (nodes a.ready)
  current_eq : s.current = a.current
  idle_eq : s.idleTask = a.idle
  pid_eq : ∀ t, (s.task t).pid = a.pid t
  lastPid_eq : s.globalPid = a.lastPid
  state_ready : ∀ t ∈ a.ready, (s.task t).state = .ready
  state_current : (s.task a.current).state = .run
  /-- A live task points at the directory of its own slot. -/
  dir_eq : ∀ t, t ∉ a.free → s.getPt t = t
  cr3_eq : s.cr3 = a.current
  linked : s.unlinkedDel = false

/-- Two states of the scheduler that differ in nothing a schedule sees. -/
structure Same (s s' : Sched) : Prop where
  links : s'.links = s.links
  current : s'.current = s.current
  idleTask : s'.idleTask = s.idleTask
  globalPid : s'.globalPid = s.globalPid
  cr3 : s'.cr3 = s.cr3
  unlinkedDel : s'.unlinkedDel = s.unlinkedDel
  stuck : s'.stuck = s.stuck
  task : ∀ t, (s'.task t).pid = (s.task t).pid ∧ (s'.task t).state = (s.task t).state
    ∧ s'.getPt t = s.getPt t

variable {s s' s'' : Sched} {a : Schedule}

theorem Same.refl (s : Sched) : Same s s :=
  ⟨rfl, rfl, rfl, rfl, rfl, rfl, rfl, fun _ => ⟨rfl, rfl, rfl⟩⟩

theorem Same.trans (h₁ : Same s s') (h₂ : Same s' s'') : Same s s'' where
  links := h₂.links.trans h₁.links
  current := h₂.current.trans h₁.current
  idleTask := h₂.idleTask.trans h₁.idleTask
  globalPid := h₂.globalPid.trans h₁.globalPid
  cr3 := h₂.cr3.trans h₁.cr3
  unlinkedDel := h₂.unlinkedDel.trans h₁.unlinkedDel
  stuck := h₂.stuck.trans h₁.stuck
  task t := ⟨(h₂.task t).1.trans (h₁.task t).1, (h₂.task t).2.1.trans (h₁.task t).2.1,
    (h₂.task t).2.2.trans (h₁.task t).2.2⟩

/-- A schedule does not see the difference. -/
theorem Threads.same (h : Threads s a) (hs : Same s s') : Threads s' a where
  freeRing := hs.links ▸ h.freeRing
  readyRing := hs.links ▸ h.readyRing
  current_eq := hs.current.trans h.current_eq
  idle_eq := hs.idleTask.trans h.idle_eq
  pid_eq t := (hs.task t).1.trans (h.pid_eq t)
  lastPid_eq := hs.globalPid.trans h.lastPid_eq
  state_ready t ht := (hs.task t).2.1.trans (h.state_ready t ht)
  state_current := (hs.task _).2.1.trans h.state_current
  dir_eq t ht := (hs.task t).2.2.trans (h.dir_eq t ht)
  cr3_eq := hs.cr3.trans h.cr3_eq
  linked := hs.unlinkedDel.trans h.linked

/-- The running process is in the page table of its own position. -/
theorem Threads.getPt_current (h : Threads s a) : s.getPt s.current = a.current := by
  rw [h.current_eq]
  exact h.dir_eq a.current a.current_notMem.1

/-! ## What a schedule does not see -/

/-- A change of task structs that keeps the fields a schedule reads. -/
theorem same_modifyTask (s : Sched) (t : Slot) (f : TaskStruct → TaskStruct)
    (hf : ∀ c, (f c).pid = c.pid ∧ (f c).state = c.state
      ∧ (f c).dirPagesBaseAddr = c.dirPagesBaseAddr) : Same s (s.modifyTask t f) := by
  refine ⟨rfl, rfl, rfl, rfl, rfl, rfl, rfl, fun u => ?_⟩
  by_cases hu : u = t
  · simp only [modifyTask, getPt, if_pos hu]
    exact hf _
  · simp [modifyTask, getPt, hu]

theorem same_getTicks (s : Sched) : Same s s.getTicks.2 :=
  ⟨rfl, rfl, rfl, rfl, rfl, rfl, rfl, fun _ => ⟨rfl, rfl, rfl⟩⟩

theorem same_updateStats (s : Sched) (t : Slot) (v : Counter) : Same s (s.updateStats t v) := by
  refine (same_getTicks s).trans ?_
  unfold updateStats
  exact same_modifyTask _ t _ (fun _ => ⟨rfl, rfl, rfl⟩)

theorem same_enter (s : Sched) (e : Epilogue) : Same s (s.enter e) :=
  same_modifyTask s _ _ fun _ => ⟨rfl, rfl, rfl⟩

theorem same_leave (s : Sched) : Same s s.leave := by
  unfold leave
  cases s.currentTask.epilogue with
  | interruptHandler => exact same_updateStats s _ _
  | systemCallHandler => exact Same.refl s
  | cpuIdle => exact Same.refl s

/-- The clock and the quantum. -/
theorem same_quantum (s : Sched) (q : ℤ) : Same s { s with remainingQuantum := q } :=
  ⟨rfl, rfl, rfl, rfl, rfl, rfl, rfl, fun _ => ⟨rfl, rfl, rfl⟩⟩

theorem same_needsSchedRr (s : Sched) : Same s s.needsSchedRr.2 := by
  unfold needsSchedRr
  split_ifs
  · exact Same.refl s
  · exact same_quantum s _
  · exact Same.refl s

/-! ## Queue operations -/

/-- Adding a task at the tail of a queue it is not in. -/
theorem linkTail_eq {head : Node} {l : List Slot} {t : Slot}
    (hr : s.links.IsRing head (nodes l)) (hh : .task t ≠ head) (ht : t ∉ l) :
    ∃ h', s.linkTail (.task t) head = { s with links := h' }
      ∧ h'.IsRing head (nodes (l ++ [t]))
      ∧ ∀ y, y ≠ .task t → y ∉ head :: nodes l → h' y = s.links y := by
  have hmem : Node.task t ∉ head :: nodes l := by
    simpa [hh] using ht
  obtain ⟨h', hadd, hring, hframe⟩ := listAddTail_spec hr hmem
  refine ⟨h', ?_, by simpa using hring, hframe⟩
  rw [linkTail, hadd]

/-- Taking the first task out of a queue. -/
theorem unlink_eq {head : Node} {l : List Slot} {t : Slot}
    (hr : s.links.IsRing head (nodes (t :: l))) :
    ∃ h', s.unlink (.task t) = { s with links := h' }
      ∧ h'.IsRing head (nodes l)
      ∧ ∀ y, y ∉ head :: nodes (t :: l) → h' y = s.links y := by
  have hlinked : listLinked s.links (.task t) = true :=
    (listLinked_iff _ _).mpr (hr.isLinked (by simp))
  obtain ⟨h', hdel, hring, -, hframe⟩ := listDel_spec
    (show s.links.IsRing head ([] ++ Node.task t :: nodes l) by simpa using hr)
  refine ⟨h', ?_, by simpa using hring, fun y hy => hframe y (by simpa using hy)⟩
  rw [unlink]
  simp only [hlinked, hdel, Bool.not_true, Bool.or_false]

/-- A queue nothing is done to stays. -/
theorem ring_frame {h h' : Links Node} {head head' : Node} {l l' : List Slot} {t : Slot}
    (hr : h.IsRing head (nodes l)) (hh : head ≠ head') (ht : ∀ u, head ≠ .task u)
    (ht' : ∀ u, head' ≠ .task u) (htl : t ∉ l) (hdisj : ∀ u ∈ l, u ∉ l')
    (hframe : ∀ y, y ≠ .task t → y ∉ head' :: nodes l' → h' y = h y) :
    h'.IsRing head (nodes l) := by
  refine hr.congr (fun y hy => hframe y ?_ ?_)
  · rintro rfl
    rcases List.mem_cons.mp hy with hc | hm
    · exact ht t hc.symm
    · exact htl (by simpa using hm)
  · rcases List.mem_cons.mp hy with rfl | hm
    · simpa [hh] using fun u _ => (ht u).symm
    · obtain ⟨u, hu, rfl⟩ := List.mem_map.mp hm
      simpa [(ht' u).symm] using hdisj u hu

/-- The queue test of the scheduler, read on the schedule. -/
theorem Threads.listEmpty_ready (h : Threads s a) :
    listEmpty s.links .readyqueue = true ↔ a.ready = [] := by
  rw [listEmpty_iff h.readyRing, List.map_eq_nil_iff]

theorem Threads.listEmpty_free (h : Threads s a) :
    listEmpty s.links .freequeue = true ↔ a.free = [] := by
  rw [listEmpty_iff h.freeRing, List.map_eq_nil_iff]

/-! ## Giving the CPU to a task -/

/-- The CPU given to a task, with nothing a schedule does not see. -/
def give (s : Sched) (t : Slot) : Sched :=
  { s.modifyTask t (fun c => { c with state := .run }) with cr3 := s.getPt t, current := t }

theorem same_taskSwitch (s : Sched) (ebp : DWord) (t : Slot) :
    Same { s with cr3 := s.getPt t, current := t } (s.taskSwitch ebp t) := by
  refine ⟨rfl, rfl, rfl, rfl, rfl, rfl, rfl, fun u => ?_⟩
  by_cases hu : u = s.current
  · simp [taskSwitch, switchStack, setCr3, modifyTask, getPt, getDir, hu]
  · simp [taskSwitch, switchStack, setCr3, modifyTask, getPt, getDir, hu]

theorem Same.give (h : Same s s') (t : Slot) :
    Same { s with cr3 := s.getPt t, current := t } { s' with cr3 := s'.getPt t, current := t } :=
  ⟨h.links, rfl, h.idleTask, h.globalPid, (h.task t).2.2, h.unlinkedDel, h.stuck, h.task⟩

/-- `dispatch` gives the CPU to the task. -/
theorem same_dispatch (s : Sched) (ebp : DWord) (t : Slot) :
    Same (s.give t) (s.dispatch ebp t) := by
  have hstate : (s.modifyTask t (fun c => { c with state := .run })).getPt t = s.getPt t := by
    simp only [getPt, modifyTask, if_true]
  unfold give dispatch
  rw [← hstate]
  refine Same.trans (Same.give ?_ t) (same_taskSwitch _ ebp t)
  refine (same_quantum _ _).trans ((same_updateStats _ _ _).trans
    ((same_updateStats _ _ _).trans (same_modifyTask _ t _ ?_)))
  exact fun _ => ⟨rfl, rfl, rfl⟩

/-- The links of a state replaced, and a task given the CPU: what remains to
be shown of the pointers is that they are the new queues. -/
theorem threads_give {a' : Schedule} {h' : Links Node} (hidle : s.idleTask = a'.idle)
    (hpid : ∀ t, (s.task t).pid = a'.pid t) (hlast : s.globalPid = a'.lastPid)
    (hready : ∀ t ∈ a'.ready, (s.task t).state = .ready)
    (hdir : ∀ t, t ∉ a'.free → s.getPt t = t) (hlinked : s.unlinkedDel = false)
    (hfree : h'.IsRing .freequeue (nodes a'.free))
    (hring : h'.IsRing .readyqueue (nodes a'.ready)) :
    Threads (({ s with links := h' } : Sched).give a'.current) a' where
  freeRing := hfree
  readyRing := hring
  current_eq := rfl
  idle_eq := hidle
  pid_eq t := by
    simp only [give, modifyTask]
    split_ifs <;> exact hpid t
  lastPid_eq := hlast
  state_ready t ht := by
    have hne : t ≠ a'.current := fun hc => a'.current_notMem.2 (hc ▸ ht)
    simp only [give, modifyTask, if_neg hne]
    exact hready t ht
  state_current := by
    simp only [give, modifyTask, if_true]
  dir_eq t ht := by
    have hpt : (({ s with links := h' } : Sched).give a'.current).getPt t = s.getPt t := by
      simp only [give, modifyTask, getPt]
      split_ifs <;> rfl
    exact hpt.trans (hdir t ht)
  cr3_eq := hdir a'.current a'.current_notMem.1
  linked := hlinked

/-- **`sched_next_rr` runs the first ready task**, or the idle task. -/
theorem schedNextRr_spec {free ready : List Slot}
    (hf : s.links.IsRing .freequeue (nodes free))
    (hr : s.links.IsRing .readyqueue (nodes ready)) (hdisj : ∀ t ∈ free, t ∉ ready)
    (ebp : DWord) :
    ∃ h' : Links Node,
      Same (({ s with links := h' } : Sched).give (ready.headD s.idleTask)) (s.schedNextRr ebp)
        ∧ h'.IsRing .freequeue (nodes free) ∧ h'.IsRing .readyqueue (nodes ready.tail) := by
  unfold schedNextRr
  cases ready with
  | nil =>
    have hempty : listEmpty s.links .readyqueue = true := (listEmpty_iff hr).mpr rfl
    refine ⟨s.links, ?_, hf, hr⟩
    rw [if_neg (by simp [hempty])]
    exact same_dispatch s ebp s.idleTask
  | cons t ts =>
    have hempty : listEmpty s.links .readyqueue = false :=
      Bool.eq_false_iff.mpr (fun h => by simpa using (listEmpty_iff hr).mp h)
    have hfirst : listFirst s.links .readyqueue = some (.task t) := hr.next_head
    obtain ⟨h', hunlink, hring, hframe⟩ := unlink_eq hr
    refine ⟨h', ?_, ?_, hring⟩
    · rw [if_pos hempty, hfirst]
      simp only [hunlink]
      exact same_dispatch _ ebp t
    · have ht : t ∉ free := fun hm => hdisj t hm List.mem_cons_self
      exact ring_frame hf (by simp) (by simp) (by simp) ht hdisj (fun y _ hy => hframe y hy)

/-- **The current task joins the ready queue.** It is running, so it is on
no queue and `update_process_state_rr` has no node to delete. -/
theorem updateProcessStateRr_spec (h : Threads s a) :
    ∃ h' : Links Node,
      Same (({ s with links := h' } : Sched).modifyTask s.current
          (fun c => { c with state := .ready }))
        (s.updateProcessStateRr s.current (some .readyqueue))
        ∧ h'.IsRing .freequeue (nodes a.free)
        ∧ h'.IsRing .readyqueue (nodes (a.ready ++ [a.current])) := by
  obtain ⟨h', hadd, hring, hframe⟩ :=
    linkTail_eq h.readyRing (by simp) a.current_notMem.2
  have hrun : (s.task s.current).state = .run := by
    rw [h.current_eq]
    exact h.state_current
  rw [← h.current_eq] at hadd
  refine ⟨h', ?_, ?_, hring⟩
  · unfold updateProcessStateRr
    simp only [hrun, ne_eq, not_true_eq_false, if_false, hadd]
    have hs := same_updateStats ({ s with links := h' } : Sched) s.current .systemTicks
    refine ⟨hs.links, hs.current, hs.idleTask, hs.globalPid, hs.cr3, hs.unlinkedDel, hs.stuck,
      fun u => ?_⟩
    simp only [modifyTask, getPt]
    split_ifs
    · exact ⟨(hs.task u).1, rfl, (hs.task u).2.2⟩
    · exact hs.task u
  · exact ring_frame h.freeRing (by simp) (by simp) (by simp) a.current_notMem.1 a.disjoint
      hframe

/-- **`force_task_switch` rotates.** -/
theorem threads_forceTaskSwitch (h : Threads s a) (ebp : DWord) :
    Threads (s.forceTaskSwitch ebp) a.rotate
      ∧ (s.forceTaskSwitch ebp).stuck = s.stuck := by
  obtain ⟨hfree, hidle, hpid, hlast, hready, hcur⟩ := a.rotate_eq
  obtain ⟨h₁, hs₁, hf₁, hr₁⟩ := updateProcessStateRr_spec h
  have hdisj : ∀ t ∈ a.free, t ∉ a.ready ++ [a.current] := by
    intro t ht hm
    rcases List.mem_append.mp hm with hm | hm
    · exact a.disjoint t ht hm
    · exact a.current_notMem.1 (List.mem_singleton.mp hm ▸ ht)
  unfold forceTaskSwitch
  set s₁ := s.updateProcessStateRr s.current (some .readyqueue)
  have hidle₁ : s₁.idleTask = a.idle := hs₁.idleTask.trans h.idle_eq
  obtain ⟨h₂, hs₂, hf₂, hr₂⟩ := schedNextRr_spec (s := s₁) (hs₁.links ▸ hf₁) (hs₁.links ▸ hr₁)
    hdisj ebp
  have hnext : (a.ready ++ [a.current]).headD s₁.idleTask = a.rotate.current := by
    rw [hidle₁, hcur]
  rw [hnext] at hs₂
  -- the states the rotated schedule expects
  have htask : ∀ t, (s₁.task t).pid = a.pid t
      ∧ (s₁.task t).state = (if t = a.current then .ready else (s.task t).state)
      ∧ s₁.getPt t = s.getPt t := by
    intro t
    obtain ⟨h₁, h₂, h₃⟩ := hs₁.task t
    rw [h₁, h₂, h₃, ← h.pid_eq, ← h.current_eq]
    simp only [modifyTask, getPt]
    split_ifs <;> exact ⟨rfl, rfl, rfl⟩
  have hgive : Threads (({ s₁ with links := h₂ } : Sched).give a.rotate.current) a.rotate := by
    refine threads_give (hidle₁.trans hidle.symm) (fun t => hpid ▸ (htask t).1)
      (hs₁.globalPid.trans (h.lastPid_eq.trans hlast.symm)) (fun t ht => ?_)
      (fun t ht => (htask t).2.2.trans (h.dir_eq t (hfree ▸ ht))) (hs₁.unlinkedDel.trans h.linked)
      (hfree ▸ hf₂) (hready ▸ hr₂)
    rw [(htask t).2.1]
    split_ifs with hc
    · rfl
    · rw [hready] at ht
      rcases List.mem_append.mp (List.mem_of_mem_tail ht) with hm | hm
      · exact h.state_ready t hm
      · exact absurd (List.mem_singleton.mp hm) hc
  exact ⟨hgive.same hs₂, hs₂.stuck.trans hs₁.stuck⟩

/-- **A clock tick rotates or leaves the schedule alone**; it rotates only
when somebody waits. -/
theorem threads_schedule (h : Threads s a) (ebp : DWord) :
    (Threads (s.schedule ebp) a ∨ a.ready ≠ [] ∧ Threads (s.schedule ebp) a.rotate)
      ∧ (s.schedule ebp).stuck = s.stuck := by
  have hsame : Same s s.updateSchedDataRr.needsSchedRr.2 :=
    (same_quantum s _).trans (same_needsSchedRr _)
  have hneeds : s.updateSchedDataRr.needsSchedRr.1 = true → a.ready ≠ [] := by
    intro hn hnil
    unfold needsSchedRr at hn
    split_ifs at hn with hq
    exact absurd (h.listEmpty_ready.mpr hnil) (ne_of_eq_of_ne hq.2 Bool.false_ne_true)
  unfold schedule
  cases hres : s.updateSchedDataRr.needsSchedRr with
  | mk b s₁ =>
    rw [hres] at hsame hneeds
    cases b with
    | false => exact ⟨Or.inl (h.same hsame), hsame.stuck⟩
    | true =>
      obtain ⟨h₁, hstuck⟩ := threads_forceTaskSwitch (h.same hsame) ebp
      exact ⟨Or.inr ⟨hneeds rfl, h₁⟩, hstuck.trans hsame.stuck⟩

/-! ## Exit -/

/-- **The scheduler's half of `sys_exit`**: the running slot joins the free
queue, its identifier goes, and somebody else runs. -/
theorem threads_exit (h : Threads s a) (hi : a.current ≠ a.idle) (ebp : DWord) :
    Threads (((s.linkTail (.task s.current) .freequeue).modifyTask s.current
        (fun c => { c with pid := -1 })).schedNextRr ebp) (a.retire hi)
      ∧ (((s.linkTail (.task s.current) .freequeue).modifyTask s.current
        (fun c => { c with pid := -1 })).schedNextRr ebp).stuck = s.stuck := by
  rw [h.current_eq]
  obtain ⟨h₁, hadd, hf₁, hframe⟩ := linkTail_eq h.freeRing (by simp) a.current_notMem.1
  have hr₁ : h₁.IsRing .readyqueue (nodes a.ready) :=
    ring_frame h.readyRing (by simp) (by simp) (by simp) a.current_notMem.2
      (fun u hu hf => a.disjoint u hf hu) hframe
  have hdisj : ∀ t ∈ a.free ++ [a.current], t ∉ a.ready := by
    intro t ht
    rcases List.mem_append.mp ht with hm | hm
    · exact a.disjoint t hm
    · exact List.mem_singleton.mp hm ▸ a.current_notMem.2
  rw [hadd]
  set s₁ := ({ s with links := h₁ } : Sched).modifyTask a.current (fun c => { c with pid := -1 })
    with hs₁
  have htask : ∀ t, (s₁.task t).pid = (if t = a.current then -1 else a.pid t)
      ∧ (s₁.task t).state = (s.task t).state ∧ s₁.getPt t = s.getPt t := by
    intro t
    rw [← h.pid_eq]
    simp only [hs₁, modifyTask, getPt]
    split_ifs <;> exact ⟨rfl, rfl, rfl⟩
  obtain ⟨h₂, hs₂, hf₂, hr₂⟩ := schedNextRr_spec (s := s₁) hf₁ hr₁ hdisj ebp
  have hnext : a.ready.headD s₁.idleTask = (a.retire hi).current :=
    congrArg a.ready.headD h.idle_eq
  rw [hnext] at hs₂
  have hgive : Threads (({ s₁ with links := h₂ } : Sched).give (a.retire hi).current)
      (a.retire hi) := by
    refine threads_give (s := s₁) h.idle_eq (fun t => ?_) h.lastPid_eq
      (fun t ht => (htask t).2.1.trans (h.state_ready t (List.mem_of_mem_tail ht)))
      (fun t ht => (htask t).2.2.trans (h.dir_eq t (fun hm => ht (List.mem_append_left _ hm))))
      h.linked hf₂ hr₂
    rw [(htask t).1]
    exact (Function.update_apply a.pid a.current (-1) t).symm
  exact ⟨hgive.same hs₂, hs₂.stuck⟩

/-! ## Fork -/

/-- The first half of `sys_fork`: the first free slot is taken out and the
parent's union copied over it. -/
def reserve (s : Sched) (c : Slot) : Sched :=
  ((s.unlink (.task c)).copyUnion (s.unlink (.task c)).current c).allocateDir c

/-- What `reserve` leaves: the queues without the slot, and the parent's
struct in it. -/
theorem reserve_spec (h : Threads s a) {c : Slot} {cs : List Slot} (hc : a.free = c :: cs) :
    ∃ h' : Links Node,
      s.reserve c = { s with
        links := h'
        task := fun u =>
          if u = c then { s.task a.current with dirPagesBaseAddr := c } else s.task u }
        ∧ h'.IsRing .freequeue (nodes cs) ∧ h'.IsRing .readyqueue (nodes a.ready) := by
  have hring := h.freeRing
  rw [hc] at hring
  obtain ⟨h₁, hunlink, hf₁, hframe⟩ := unlink_eq hring
  obtain ⟨hcs, hcr, -⟩ := a.first_free hc
  have hr₁ : h₁.IsRing .readyqueue (nodes a.ready) :=
    ring_frame h.readyRing (by simp) (by simp) (by simp) hcr
      (fun u hu hf => a.disjoint u (hc ▸ hf) hu) (fun y _ hy => hframe y hy)
  -- the copied `list` field is that of a node on neither queue
  have hcopy : ∀ {head : Node} {l : List Slot}, h₁.IsRing head (nodes l) → c ∉ l →
      (∀ u, head ≠ .task u) →
      Links.IsRing (Function.update h₁ (.task c) (h₁ (.task a.current))) head (nodes l) := by
    intro head l hr hl hh
    refine hr.congr (fun y hy => Function.update_of_ne ?_ _ h₁)
    rintro rfl
    rcases List.mem_cons.mp hy with he | hm
    · exact hh c he.symm
    · exact hl (by simpa using hm)
  refine ⟨_, ?_, hcopy hf₁ hcs (by simp), hcopy hr₁ hcr (by simp)⟩
  unfold reserve
  rw [hunlink, ← h.current_eq]
  simp only [copyUnion, allocateDir, modifyTask, Function.update_apply]
  congr 1
  funext u
  split_ifs <;> rfl

/-- **A fork given up** puts the slot back at the end of the free queue. -/
theorem threads_giveUp (h : Threads s a) {c : Slot} {cs : List Slot} (hc : a.free = c :: cs) :
    Threads ((s.reserve c).linkTail (.task c) .freequeue) (a.giveUp c cs hc)
      ∧ ((s.reserve c).linkTail (.task c) .freequeue).stuck = s.stuck := by
  obtain ⟨h₁, hres, hf₁, hr₁⟩ := reserve_spec h hc
  obtain ⟨hcs, hcr, hcc⟩ := a.first_free hc
  rw [hres]
  obtain ⟨h₂, hadd, hf₂, hframe⟩ := linkTail_eq
    (s := { s with
      links := h₁
      task := fun u =>
        if u = c then { s.task a.current with dirPagesBaseAddr := c } else s.task u })
    hf₁ (by simp) hcs
  have hr₂ : h₂.IsRing .readyqueue (nodes a.ready) :=
    ring_frame hr₁ (by simp) (by simp) (by simp) hcr
      (fun u hu hf => a.disjoint u (hc ▸ List.mem_cons_of_mem c hf) hu) hframe
  rw [hadd]
  refine ⟨⟨hf₂, hr₂, h.current_eq, h.idle_eq, fun t => ?_, h.lastPid_eq, fun t ht => ?_, ?_,
    fun t ht => ?_, h.cr3_eq, h.linked⟩, rfl⟩
  · show (if t = c then _ else _ : TaskStruct).pid = Function.update a.pid c (a.pid a.current) t
    rw [Function.update_apply]
    split_ifs
    · exact h.pid_eq a.current
    · exact h.pid_eq t
  · have hne : t ≠ c := fun he => hcr (he ▸ ht)
    simp only [if_neg hne]
    exact h.state_ready t ht
  · show (if a.current = c then _ else _ : TaskStruct).state = .run
    rw [if_neg hcc]
    exact h.state_current
  · have hne : t ≠ c := fun he => ht (by simp [Schedule.giveUp, he])
    simp only [getPt, if_neg hne]
    exact h.dir_eq t (fun hm => ht (by
      rw [hc] at hm
      simpa [Schedule.giveUp, or_comm] using hm))

/-- **A fork completed** puts the slot at the end of the ready queue under a
fresh identifier. -/
theorem threads_spawn (h : Threads s a) {c : Slot} {cs : List Slot} (hc : a.free = c :: cs)
    (hi : a.current ≠ a.idle) (ebp : DWord) :
    Threads ((s.reserve c).startChild ebp c) (a.spawn c cs hc hi)
      ∧ ((s.reserve c).startChild ebp c).stuck
        = (s.stuck || !decide (a.lastPid + 1 < 2 ^ 31)) := by
  obtain ⟨h₁, hres, hf₁, hr₁⟩ := reserve_spec h hc
  obtain ⟨hcs, hcr, hcc⟩ := a.first_free hc
  have hcur : s.getPt a.current = a.current := h.dir_eq _ a.current_notMem.1
  rw [hres]
  set s₁ : Sched := { s with
    links := h₁
    task := fun u =>
      if u = c then { s.task a.current with dirPagesBaseAddr := c } else s.task u } with hs₁
  have hcur₁ : s₁.getDir s₁.current = a.current := by
    simp only [hs₁, getDir, h.current_eq, if_neg hcc]
    exact hcur
  -- the struct of the child once its fields are set
  set s₂ : Sched := ((({ s₁.setCr3 (s₁.getDir s₁.current) with
      globalPid := s₁.globalPid + 1
      stuck := s₁.stuck || !decide (s₁.globalPid + 1 < 2 ^ 31) } : Sched).modifyTask c (fun t =>
        { t with
          pid := s₁.globalPid + 1
          state := .ready
          registerEsp := ebp - BitVec.ofNat 32 (s₁.current.val * pageSize)
            + BitVec.ofNat 32 (c.val * pageSize) - 4 })).initStats c).modifyTask c
      (fun t => { t with state := .ready }) with hs₂
  have hstart : s₁.startChild ebp c = s₂.linkTail (.task c) .readyqueue := rfl
  have hframe₂ : s₂.links = h₁ ∧ s₂.current = a.current ∧ s₂.idleTask = a.idle
      ∧ s₂.globalPid = a.lastPid + 1 ∧ s₂.cr3 = a.current ∧ s₂.unlinkedDel = false
      ∧ s₂.stuck = (s.stuck || !decide (a.lastPid + 1 < 2 ^ 31)) := by
    refine ⟨rfl, h.current_eq, h.idle_eq, ?_, hcur₁, h.linked, ?_⟩
    · rw [← h.lastPid_eq]
      rfl
    · rw [← h.lastPid_eq]
      rfl
  have htask₂ : ∀ t, (s₂.task t).pid = (if t = c then a.lastPid + 1 else a.pid t)
      ∧ (s₂.task t).state = (if t = c then .ready else (s.task t).state)
      ∧ s₂.getPt t = (if t = c then c else s.getPt t) := by
    intro t
    rw [← h.lastPid_eq, ← h.pid_eq]
    by_cases ht : t = c
    · simp [hs₂, hs₁, initStats, modifyTask, getTicks, setCr3, getPt, ht]
    · simp [hs₂, hs₁, initStats, modifyTask, getTicks, setCr3, getPt, ht]
  obtain ⟨hl₂, hc₂, hi₂, hg₂, hcr₂, hu₂, hst₂⟩ := hframe₂
  rw [← hl₂] at hr₁ hf₁
  obtain ⟨h₃, hadd, hr₃, hframe⟩ := linkTail_eq hr₁ (by simp) hcr
  have hf₃ : h₃.IsRing .freequeue (nodes cs) :=
    ring_frame hf₁ (by simp) (by simp) (by simp) hcs
      (fun u hu => a.disjoint u (hc ▸ List.mem_cons_of_mem c hu)) hframe
  rw [hstart, hadd]
  refine ⟨⟨hf₃, hr₃, hc₂, hi₂, fun t => ?_, hg₂, fun t ht => ?_, ?_, fun t ht => ?_, hcr₂, hu₂⟩,
    hst₂⟩
  · rw [(htask₂ t).1]
    exact (Function.update_apply a.pid c (a.lastPid + 1) t).symm
  · rw [(htask₂ t).2.1]
    split_ifs with htc
    · rfl
    · rcases List.mem_append.mp ht with hm | hm
      · exact h.state_ready t hm
      · exact absurd (List.mem_singleton.mp hm) htc
  · show (s₂.task a.current).state = .run
    rw [(htask₂ a.current).2.1, if_neg hcc]
    exact h.state_current
  · show s₂.getPt t = t
    rw [(htask₂ t).2.2]
    split_ifs with htc
    · exact htc.symm
    · refine h.dir_eq t (fun hm => ?_)
      rw [hc] at hm
      rcases List.mem_cons.mp hm with he | hm
      · exact htc he
      · exact ht hm

end Sched

end ZeOS.Practica
