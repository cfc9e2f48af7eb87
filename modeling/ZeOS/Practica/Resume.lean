import ZeOS.Practica.Attribution

/-!
# Where a task resumes

`inner_task_switch` passes `switch_stack` two arguments: where the stack
pointer of the task that goes is to be kept, and the value kept for the task
that comes. The second one is read before the first one is written. For two
different tasks the order does not matter. A process that yields with nobody
waiting is put in the ready queue and taken out of it again, so that it is
switched to itself: it saves where it is and goes on where it was when it
was switched out the time before – or at address 0, if that has never
happened.

The stack pointers are followed beside the kernel: `saved` has, for each
task, what its own last `switch_stack` saved or what `init_idle` or
`sys_fork` set up for it.
-/

namespace ZeOS.Practica

/-! ## The stack pointers -/

/-- The stack pointers of the tasks that do not run, and the one that
`switch_stack` has loaded. -/
structure Pointers where
  registerEsp : Slot → DWord
  esp : DWord

/-- A switch: the pointer of the new task is read, then that of the old one
is written. -/
def Pointers.switch (b : Pointers) (old new : Slot) (ebp : DWord) : Pointers where
  registerEsp := Function.update b.registerEsp old ebp
  esp := b.registerEsp new

namespace Sched

variable {s : Sched} {a : Schedule}

/-- The stack pointers of a state of the scheduler. -/
def pointers (s : Sched) : Pointers where
  registerEsp t := (s.task t).registerEsp
  esp := s.esp

theorem pointers_modifyTask (s : Sched) (t : Slot) (f : TaskStruct → TaskStruct)
    (hf : ∀ c, (f c).registerEsp = c.registerEsp) : (s.modifyTask t f).pointers = s.pointers := by
  simp only [pointers, modifyTask, Pointers.mk.injEq, and_true]
  funext u
  split_ifs
  · exact hf _
  · rfl

theorem pointers_updateStats (s : Sched) (t : Slot) (v : Counter) :
    (s.updateStats t v).pointers = s.pointers := by
  have h : s.getTicks.2.pointers = s.pointers := rfl
  unfold updateStats
  refine Eq.trans ?_ h
  exact pointers_modifyTask _ t _ fun _ => rfl

theorem pointers_enter (s : Sched) (e : Epilogue) : (s.enter e).pointers = s.pointers :=
  pointers_modifyTask s _ _ fun _ => rfl

theorem pointers_leave (s : Sched) : s.leave.pointers = s.pointers := by
  unfold leave
  cases s.currentTask.epilogue with
  | interruptHandler => exact pointers_updateStats s _ _
  | systemCallHandler => rfl
  | cpuIdle => rfl

theorem pointers_linkTail (s : Sched) (new head : Node) :
    (s.linkTail new head).pointers = s.pointers := by
  unfold linkTail
  split <;> rfl

theorem pointers_unlink (s : Sched) (entry : Node) : (s.unlink entry).pointers = s.pointers := by
  unfold unlink
  dsimp only
  split <;> rfl

theorem pointers_updateProcessStateRr (s : Sched) (t : Slot) (dst : Option Node) :
    (s.updateProcessStateRr t dst).pointers = s.pointers := by
  have h : (if (s.task t).state ≠ .run then s.unlink (.task t) else s).pointers = s.pointers := by
    split_ifs
    · exact pointers_unlink s _
    · rfl
  unfold updateProcessStateRr
  generalize (if (s.task t).state ≠ .run then s.unlink (.task t) else s) = s₁ at h
  cases dst with
  | none =>
    refine Eq.trans ?_ h
    exact pointers_modifyTask s₁ t _ fun _ => rfl
  | some q =>
    refine Eq.trans ?_ ((pointers_linkTail s₁ (.task t) q).trans h)
    dsimp only
    split_ifs
    · exact pointers_modifyTask _ t _ fun _ => rfl
    · refine Eq.trans ?_ (pointers_updateStats _ t .systemTicks)
      exact pointers_modifyTask _ t _ fun _ => rfl

/-- **`task_switch`**: what is loaded is what was there before the save. -/
theorem pointers_taskSwitch (s : Sched) (ebp : DWord) (t : Slot) :
    (s.taskSwitch ebp t).pointers = s.pointers.switch s.current t ebp := by
  refine Pointers.mk.injEq .. ▸ ⟨?_, rfl⟩
  funext u
  show (if u = s.current then { s.task u with registerEsp := ebp } else s.task u).registerEsp
    = Function.update s.pointers.registerEsp s.current ebp u
  rw [Function.update_apply]
  split_ifs <;> rfl

theorem pointers_dispatch (s : Sched) (ebp : DWord) (t : Slot) :
    (s.dispatch ebp t).pointers = s.pointers.switch s.current t ebp := by
  have h : ({ s.modifyTask t (fun c => { c with state := .run }) with
      remainingQuantum :=
        (s.modifyTask t (fun c => { c with state := .run })).getQuantum t } : Sched).pointers
      = s.pointers :=
    pointers_modifyTask s t (fun c => { c with state := .run }) fun _ => rfl
  unfold dispatch
  dsimp only
  rw [pointers_taskSwitch, pointers_modifyTask _ t (fun c =>
    { c with pStats := { c.pStats with totalTrans := c.pStats.totalTrans + 1 } }) fun _ => rfl,
    pointers_updateStats, pointers_updateStats, h]
  rfl

/-- **`sched_next_rr` switches** to whoever is current after it. -/
theorem pointers_schedNextRr (s : Sched) (ebp : DWord) (hdown : (s.schedNextRr ebp).stuck = false) :
    (s.schedNextRr ebp).pointers = s.pointers.switch s.current (s.schedNextRr ebp).current ebp := by
  obtain ⟨s', t, he, hs'⟩ := exists_dispatch s ebp hdown
  have hsame : s'.pointers = s.pointers ∧ s'.current = s.current := by
    rcases hs' with rfl | ⟨u, rfl⟩
    · exact ⟨rfl, rfl⟩
    · exact ⟨pointers_unlink s _, current_unlink s _⟩
  rw [he, pointers_dispatch, hsame.1, hsame.2]
  rfl

theorem pointers_forceTaskSwitch (h : Threads s a) (hdown : s.stuck = false) (ebp : DWord) :
    (s.forceTaskSwitch ebp).pointers = s.pointers.switch s.current a.rotate.current ebp := by
  obtain ⟨hcur, hnext, hst⟩ := forceTaskSwitch_next h hdown ebp
  unfold forceTaskSwitch at hst hnext ⊢
  rw [pointers_schedNextRr _ ebp hst, pointers_updateProcessStateRr, hcur, hnext]

theorem pointers_schedule (h : Threads s a) (hdown : s.stuck = false) (ebp : DWord) :
    (s.schedule ebp).pointers = if s.remainingQuantum = 1 ∧ a.ready ≠ [] then
        s.pointers.switch s.current a.rotate.current ebp
      else s.pointers := by
  rcases schedule_cases h ebp with ⟨hsw, he⟩ | ⟨hsw, n, he⟩
  · rw [if_pos hsw, he]
    exact pointers_forceTaskSwitch (s := s.updateSchedDataRr) (h.same (same_quantum s _)) hdown ebp
  · rw [if_neg hsw, he]
    rfl

end Sched

/-! ## What an event does to the pointers -/

namespace Kernel

variable {k k' : Kernel} {a : Schedule} {e : Event} {ebp : DWord}

theorem pointers_interrupted (k : Kernel) : k.interrupted.pointers = k.sched.pointers := by
  rw [interrupted, Sched.userToSystem, Sched.pointers_updateStats, Sched.pointers_enter]

theorem pointers_entered (k : Kernel) : k.entered.sched.pointers = k.sched.pointers :=
  Sched.pointers_enter _ _

theorem pointers_tick (hf : k.Follows a) (hst : k.step (.tick ebp) = some k') :
    k'.sched.pointers = if k.sched.remainingQuantum = 1 ∧ a.ready ≠ [] then
        k.sched.pointers.switch k.sched.current a.rotate.current ebp
      else k.sched.pointers := by
  rw [sched_of_step hst, schedAfter, Sched.pointers_leave,
    Sched.pointers_schedule (s := k.interrupted) (threads_interrupt hf.threads) hf.interrupted_down,
    k.sameQuanta_interrupted.remaining, k.current_interrupted, pointers_interrupted]

theorem pointers_yield (hf : k.Follows a) (hst : k.step (.yield ebp) = some k') :
    k'.sched.pointers = k.sched.pointers.switch k.sched.current a.rotate.current ebp := by
  rw [sched_of_step hst, schedAfter, Sched.pointers_leave,
    Sched.pointers_forceTaskSwitch hf.entered.threads hf.entered.sched_down, pointers_entered]
  rfl

theorem pointers_exit (hst : k.step (.exit ebp) = some k') :
    k'.sched.pointers = k.sched.pointers.switch k.sched.current k'.sched.current ebp := by
  have hdown := (step_eq_some_iff.mp hst).2.2.2.1
  rw [sched_of_step hst, schedAfter] at hdown ⊢
  rw [(Sched.same_leave _).stuck] at hdown
  rw [Sched.pointers_leave, (Sched.same_leave _).current]
  set s := k.entered.sched.linkTail (.task k.entered.sched.current) .freequeue with hs
  have hcur : s.current = k.sched.current := by
    rw [hs]
    unfold Sched.linkTail
    split <;> rfl
  have hpre : (s.modifyTask s.current (fun c => { c with pid := -1 })).pointers
      = k.sched.pointers := by
    rw [Sched.pointers_modifyTask s s.current (fun c => { c with pid := -1 }) fun _ => rfl, hs,
      Sched.pointers_linkTail, pointers_entered]
  have hnext := Sched.pointers_schedNextRr _ ebp hdown
  rw [hpre] at hnext
  exact hnext.trans (congrArg (k.sched.pointers.switch · _ ebp) hcur)

/-- The stack pointer `sys_fork` prepares on the stack of a child: the frame
of the caller moved to the child's stack, one word further. -/
def childPointer (k : Kernel) (ebp : DWord) (c : Slot) : DWord :=
  ebp - BitVec.ofNat 32 (k.sched.current.val * pageSize) + BitVec.ofNat 32 (c.val * pageSize) - 4

/-- **The pointers after a fork**: only that of the slot taken is written,
and it is the one prepared unless the slot is given up. -/
theorem pointers_fork (hf : k.Follows a) {c : Slot} {cs : List Slot} (hfree : a.free = c :: cs)
    (hst : k.step (.fork ebp) = some k') :
    (∀ s, s ≠ c → k'.sched.pointers.registerEsp s = k.sched.pointers.registerEsp s)
      ∧ (0 < (k.entered.sysFork ebp).1 →
        k'.sched.pointers.registerEsp c = k.childPointer ebp c) := by
  obtain ⟨h', hres, -, -⟩ := Sched.reserve_spec hf.entered.threads hfree
  have hother : ∀ s, s ≠ c → (k.entered.sched.reserve c).pointers.registerEsp s
      = k.sched.pointers.registerEsp s := by
    intro s hs
    rw [← pointers_entered, hres]
    simp only [Sched.pointers, if_neg hs]
  have hcur : (k.entered.sched.reserve c).current = k.sched.current := by
    rw [hres]
    rfl
  set s := k.entered.sched.reserve c with hsdef
  have hchild : (s.startChild ebp c).pointers = { s.pointers with
      registerEsp := Function.update s.pointers.registerEsp c (k.childPointer ebp c) } := by
    rw [childPointer, ← hcur]
    unfold Sched.startChild
    dsimp only
    rw [Sched.pointers_linkTail,
      Sched.pointers_modifyTask _ c (fun c => { c with state := .ready }) fun _ => rfl]
    refine (Pointers.mk.injEq _ _ _ _).mpr ⟨?_, rfl⟩
    funext u
    simp only [Sched.initStats, Sched.getTicks, Sched.modifyTask, Sched.setCr3, Sched.pointers]
    rw [Function.update_apply]
    split_ifs <;> rfl
  rw [sched_of_step hst, schedAfter, Sched.pointers_leave, sysFork_cons hf.entered.threads hfree]
  split
  · -- given up
    show (∀ u, u ≠ c → (s.linkTail (.task c) .freequeue).pointers.registerEsp u = _)
      ∧ (0 < -eAGAIN → _)
    rw [Sched.pointers_linkTail]
    exact ⟨hother, fun hpos => absurd hpos (by decide)⟩
  · show (∀ u, u ≠ c → (s.startChild ebp c).pointers.registerEsp u = _)
      ∧ (_ → (s.startChild ebp c).pointers.registerEsp c = _)
    rw [hchild]
    exact ⟨fun u hu => (Function.update_of_ne hu _ _).trans (hother u hu),
      fun _ => Function.update_self _ _ _⟩

/-- Any other event leaves them alone. -/
theorem pointers_of_step (hst : k.step e = some k') (htick : ∀ ebp, e ≠ .tick ebp)
    (hfork : ∀ ebp, e ≠ .fork ebp) (hexit : ∀ ebp, e ≠ .exit ebp)
    (hyield : ∀ ebp, e ≠ .yield ebp) : k'.sched.pointers = k.sched.pointers := by
  have hint : k.interrupted.leave.pointers = k.sched.pointers :=
    (Sched.pointers_leave _).trans k.pointers_interrupted
  have hcall : k.entered.sched.leave.pointers = k.sched.pointers :=
    (Sched.pointers_leave _).trans k.pointers_entered
  rw [sched_of_step hst]
  cases e with
  | tick ebp => exact absurd rfl (htick ebp)
  | fork ebp => exact absurd rfl (hfork ebp)
  | exit ebp => exact absurd rfl (hexit ebp)
  | yield ebp => exact absurd rfl (hyield ebp)
  | load addr => rfl
  | key c past | fault cr2 => exact hint
  | store addr b =>
    simp only [schedAfter]
    split_ifs
    · rfl
    · exact hint
  | shmat id addr | shmdt addr | shmrm id | read b maxchars => exact hcall
  | getStats pid st =>
    refine (Sched.pointers_leave _).trans (Eq.trans ?_ k.pointers_entered)
    unfold sysGetStats
    split
    · rfl
    · split
      · rfl
      · split
        · rename_i i _
          exact Sched.pointers_modifyTask k.entered.sched i (fun c =>
            { c with pStats :=
              { c.pStats with
                remainingTicks := BitVec.ofInt 32 k.entered.sched.remainingQuantum } })
            fun _ => rfl
        · rfl

end Kernel

/-! ## The last save of every task -/

/-- A kernel with the stack pointer each task last saved, or was given when
it was made. A task that has neither has none. -/
structure Traced where
  kernel : Kernel
  saved : Slot → Option DWord

namespace Kernel

/-- **The saves of an event**: a switch saves the frame pointer of the task
that goes, and a fork that succeeds sets one up for the child. -/
def saves (k : Kernel) (saved : Slot → Option DWord) (e : Event) : Slot → Option DWord :=
  match e with
  | .tick ebp =>
    if (k.next (.tick ebp)).isSome then Function.update saved k.sched.current (some ebp) else saved
  | .yield ebp => Function.update saved k.sched.current (some ebp)
  | .exit ebp => Function.update saved k.sched.current (some ebp)
  | .fork ebp =>
    match k.freeSlots.head? with
    | some c =>
      if 0 < (k.entered.sysFork ebp).1 then Function.update saved c (some (k.childPointer ebp c))
      else saved
    | none => saved
  | _ => saved

end Kernel

/-- Who waits after a rotation. -/
theorem Schedule.mem_ready_rotate {a : Schedule} {s : Slot} (h : s ∈ a.rotate.ready) :
    s ∈ a.ready ∨ s = a.current := by
  rw [a.rotate_eq.2.2.2.2.1] at h
  exact (List.mem_append.mp (List.mem_of_mem_tail h)).imp id List.mem_singleton.mp

namespace Traced

/-- The booted kernel: `init_idle` has prepared the stack of the idle task,
and the first task has never been switched out. -/
def boot (M : Machine) : Traced where
  kernel := M.boot
  saved := Function.update (fun _ => none) M.boot.sched.idleTask
    (some (M.taskArray + BitVec.ofNat 32 (M.boot.sched.idleTask.val * pageSize + 4 * 1022)))

def step (t : Traced) (e : Event) : Option Traced :=
  (t.kernel.step e).map fun k => ⟨k, t.kernel.saves t.saved e⟩

/-- **A dispatch resumes the task where it is saved**: the stack pointer
that `switch_stack` loads is the last one saved for the task that is chosen,
the save of this very switch included. -/
def Resumes (t : Traced) (e : Event) : Prop :=
  ∀ t' new, t.step e = some t' → t.kernel.next e = some new →
    t'.saved new = some t'.kernel.sched.esp

/-- **A process that yields alone** is where it was when it was last switched
out, or made. -/
def InPlace (t : Traced) (e : Event) : Prop :=
  ∀ ebp, e = .yield ebp → t.kernel.readySlots = [] →
    (t.kernel.sched.task t.kernel.sched.current).registerEsp = ebp

/-! ## The saves are the pointers -/

variable {t t' : Traced} {k' : Kernel} {a a' : Schedule} {e : Event} {ebp : DWord}

/-- **The pointer of every task that can be chosen is its last save.** -/
def Kept (t : Traced) (a : Schedule) : Prop :=
  ∀ s, s ∈ a.ready ∨ s = a.idle → t.saved s = some (t.kernel.sched.pointers.registerEsp s)

/-- An event that changes no pointer of a task that can be chosen. -/
theorem Kept.congr (h : t.Kept a) {saved : Slot → Option DWord}
    (hmem : ∀ s, s ∈ a'.ready ∨ s = a'.idle → (s ∈ a.ready ∨ s = a.idle)
      ∧ saved s = t.saved s ∧ k'.sched.pointers.registerEsp s
        = t.kernel.sched.pointers.registerEsp s) : Kept ⟨k', saved⟩ a' := by
  intro s hs
  obtain ⟨hold, hsaved, hptr⟩ := hmem s hs
  show saved s = some (k'.sched.pointers.registerEsp s)
  rw [hsaved, hptr]
  exact h s hold

/-- **A switch** keeps the pointers and the saves together: both are written
for the task that goes. -/
theorem Kept.switch (h : t.Kept a) {old new : Slot}
    (hptr : k'.sched.pointers = t.kernel.sched.pointers.switch old new ebp)
    (hidle : a'.idle = a.idle) (hready : ∀ s ∈ a'.ready, s ∈ a.ready ∨ s = old) :
    Kept ⟨k', Function.update t.saved old (some ebp)⟩ a' := by
  intro s hs
  rw [hptr]
  show Function.update t.saved old (some ebp) s
    = some (Function.update t.kernel.sched.pointers.registerEsp old ebp s)
  by_cases hold : s = old
  · subst hold
    rw [Function.update_self, Function.update_self]
  · rw [Function.update_of_ne hold, Function.update_of_ne hold]
    refine h s (hs.imp (fun hm => ?_) (fun he => he.trans hidle))
    exact (hready s hm).resolve_right hold

/-- **What a switch loads** is the last save of the task chosen, unless that
is the one that goes: then it is its save before this one. -/
theorem Kept.switch_iff (h : t.Kept a) {old new : Slot}
    (hptr : k'.sched.pointers = t.kernel.sched.pointers.switch old new ebp)
    (hnew : new ≠ old → new ∈ a.ready ∨ new = a.idle) :
    Function.update t.saved old (some ebp) new = some k'.sched.esp
      ↔ (new = old → t.kernel.sched.pointers.registerEsp old = ebp) := by
  have hesp : k'.sched.esp = t.kernel.sched.pointers.registerEsp new := congrArg Pointers.esp hptr
  rw [hesp]
  by_cases hold : new = old
  · subst hold
    rw [Function.update_self, Option.some_inj]
    exact ⟨fun he _ => he.symm, fun he => (he rfl).symm⟩
  · rw [Function.update_of_ne hold]
    exact iff_of_true (h new (hnew hold)) (fun he => absurd he hold)

/-- A slot that can be chosen is not free. -/
theorem ne_of_mem {c s : Slot} {cs : List Slot} (hfree : a.free = c :: cs)
    (hs : s ∈ a.ready ∨ s = a.idle) : s ≠ c := by
  rintro rfl
  have hc : s ∈ a.free := hfree ▸ List.mem_cons_self
  rcases hs with hm | rfl
  · exact a.disjoint s hc hm
  · exact a.idle_notMem.1 hc

/-- **A fork** sets the pointer of the child up, and writes no other. -/
theorem Kept.fork (h : t.Kept a) (hf : t.kernel.Follows a) (hlast : 0 ≤ a.lastPid)
    (hst : t.kernel.step (.fork ebp) = some k')
    (ho : Outcome a t.kernel.mm (.fork ebp) a' k'.mm) :
    Kept ⟨k', t.kernel.saves t.saved (.fork ebp)⟩ a' := by
  simp only [Kernel.saves, Kernel.freeSlots_eq hf.threads]
  generalize k'.mm = m' at ho
  cases ho with
  | forkNone ebp hfree =>
    have hptr : k'.sched.pointers = t.kernel.sched.pointers := by
      rw [Kernel.sched_of_step hst, Kernel.schedAfter, Sched.pointers_leave,
        Kernel.sysFork_none hf.entered.threads hfree, Kernel.pointers_entered]
    rw [hfree]
    exact h.congr fun s hs => ⟨hs, rfl, by rw [hptr]⟩
  | forkFail ebp c cs hfree hlen =>
    obtain ⟨s', hres, -⟩ := Kernel.sysFork_fail hf.entered.threads hfree hlen ebp
    have hneg : ¬ 0 < (t.kernel.entered.sysFork ebp).1 := by
      rw [hres]
      exact (by decide : ¬ 0 < -eAGAIN)
    rw [hfree]
    simp only [List.head?_cons, if_neg hneg]
    exact h.congr fun s hs => ⟨hs, rfl, (Kernel.pointers_fork hf hfree hst).1 s
      (ne_of_mem hfree hs)⟩
  | forkOk ebp c cs hfree hidle hlen =>
    obtain ⟨s', hres, -⟩ := Kernel.sysFork_ok hf.entered.threads hfree hidle hlen ebp
    have hpos : 0 < (t.kernel.entered.sysFork ebp).1 := by
      rw [hres]
      exact Int.lt_add_one_iff.mpr hlast
    obtain ⟨hother, hchild⟩ := Kernel.pointers_fork hf hfree hst
    rw [hfree]
    simp only [List.head?_cons, if_pos hpos]
    intro s hs
    show Function.update t.saved c (some (t.kernel.childPointer ebp c)) s = _
    by_cases hsc : s = c
    · subst hsc
      rw [Function.update_self]
      exact congrArg some (hchild hpos).symm
    · have hold : s ∈ a.ready ∨ s = a.idle := hs.imp_left fun hm =>
        (List.mem_append.mp hm).resolve_right fun he => hsc (List.mem_singleton.mp he)
      rw [Function.update_of_ne hsc, h s hold]
      exact congrArg some (hother s hsc).symm

theorem step_of_kernel (hk : t.kernel.step e = some k') :
    t.step e = some ⟨k', t.kernel.saves t.saved e⟩ := congrArg (Option.map _) hk

/-- The dispatch of a step that there is. -/
theorem resumes_iff_of_next {new : Slot} (hk : t.kernel.step e = some k')
    (hnext : t.kernel.next e = some new) :
    t.Resumes e ↔ t.kernel.saves t.saved e new = some k'.sched.esp := by
  have hstep := step_of_kernel hk
  constructor
  · exact fun h => h _ new hstep hnext
  · intro h t' new' hst hnext'
    obtain rfl := Option.some_inj.mp (hstep.symm.trans hst)
    obtain rfl := Option.some_inj.mp (hnext.symm.trans hnext')
    exact h

/-- A step without a dispatch. -/
theorem resumes_of_none (hnext : t.kernel.next e = none) : t.Resumes e := by
  intro t' new _ hnew
  rw [hnext] at hnew
  exact absurd hnew (by simp)

theorem inPlace_of_ne (h : ∀ ebp, e ≠ .yield ebp) : t.InPlace e := fun ebp he => absurd he (h ebp)

/-- An event that makes no process and dispatches none. -/
theorem Kept.plain (hk : t.Kept a) (hst : t.kernel.step e = some k')
    (htick : ∀ ebp, e ≠ .tick ebp) (hfork : ∀ ebp, e ≠ .fork ebp) (hexit : ∀ ebp, e ≠ .exit ebp)
    (hyield : ∀ ebp, e ≠ .yield ebp) (hsaves : t.kernel.saves t.saved e = t.saved)
    (hnext : t.kernel.next e = none) :
    Kept ⟨k', t.kernel.saves t.saved e⟩ a ∧ (t.Resumes e ↔ t.InPlace e) := by
  refine ⟨hk.congr fun s hs => ⟨hs, congrFun hsaves s, ?_⟩,
    iff_of_true (resumes_of_none hnext) (inPlace_of_ne hyield)⟩
  rw [Kernel.pointers_of_step hst htick hfork hexit hyield]

/-- **The clock** saves the pointer of the task it switches from. -/
theorem Kept.tick (hk : t.Kept a) (hf : t.kernel.Follows a)
    (hst : t.kernel.step (.tick ebp) = some k') :
    Kept ⟨k', t.kernel.saves t.saved (.tick ebp)⟩
        (if t.kernel.sched.remainingQuantum = 1 ∧ a.ready ≠ [] then a.rotate else a)
      ∧ (t.Resumes (.tick ebp) ↔ t.InPlace (.tick ebp)) := by
  have hcur := hf.threads.current_eq
  have hnext := Kernel.next_tick hf ebp
  have hptr := Kernel.pointers_tick hf hst
  by_cases hsw : t.kernel.sched.remainingQuantum = 1 ∧ a.ready ≠ []
  · rw [if_pos hsw] at hnext hptr ⊢
    have hsaves : t.kernel.saves t.saved (.tick ebp)
        = Function.update t.saved t.kernel.sched.current (some ebp) := by
      simp only [Kernel.saves, hnext, Option.isSome_some, if_true]
    have hne : a.rotate.current ≠ t.kernel.sched.current :=
      hcur ▸ Schedule.rotate_current_ne hsw.2
    have hmem : a.rotate.current ∈ a.ready :=
      List.mem_of_mem_head? (by rw [Schedule.head?_of_ready hsw.2]; rfl)
    constructor
    · rw [hsaves]
      exact hk.switch hptr a.rotate_eq.2.1 (hcur ▸ fun s hs => Schedule.mem_ready_rotate hs)
    · rw [resumes_iff_of_next hst hnext, hsaves, hk.switch_iff hptr fun _ => Or.inl hmem]
      exact iff_of_true (fun he => absurd he hne) (inPlace_of_ne (by simp))
  · rw [if_neg hsw] at hnext hptr ⊢
    have hsaves : t.kernel.saves t.saved (.tick ebp) = t.saved := by
      simp only [Kernel.saves, hnext, Option.isSome_none, Bool.false_eq_true, if_false]
    refine ⟨hk.congr fun s hs => ⟨hs, congrFun hsaves s, ?_⟩,
      iff_of_true (resumes_of_none hnext) (inPlace_of_ne (by simp))⟩
    rw [hptr]

/-- **A yield** may go to the process itself, and then it is resumed where it
was saved the last time but one. -/
theorem Kept.yield (hk : t.Kept a) (hf : t.kernel.Follows a)
    (hst : t.kernel.step (.yield ebp) = some k') :
    Kept ⟨k', t.kernel.saves t.saved (.yield ebp)⟩ a.rotate
      ∧ (t.Resumes (.yield ebp) ↔ t.InPlace (.yield ebp)) := by
  have hcur := hf.threads.current_eq
  have hptr := Kernel.pointers_yield hf hst
  refine ⟨hk.switch hptr a.rotate_eq.2.1 (hcur ▸ fun s hs => Schedule.mem_ready_rotate hs), ?_⟩
  have hself : a.rotate.current = t.kernel.sched.current ↔ t.kernel.readySlots = [] := by
    rw [Kernel.readySlots_eq hf.threads, hcur]
    constructor
    · intro he
      by_contra hne
      exact Schedule.rotate_current_ne hne he
    · exact fun hnil => congrArg Schedule.current (Schedule.rotate_eq_self hnil)
  rw [resumes_iff_of_next hst (Kernel.next_yield hf ebp)]
  refine (hk.switch_iff hptr fun hne => Or.inl ?_).trans ?_
  · have hready : a.ready ≠ [] := fun hnil => hne (by rw [Schedule.rotate_eq_self hnil, hcur])
    exact List.mem_of_mem_head? (by rw [Schedule.head?_of_ready hready]; rfl)
  · rw [hself]
    constructor
    · rintro h ebp' he hnil
      obtain rfl := Event.yield.inj he
      exact h hnil
    · exact fun h hnil => h ebp rfl hnil

/-- **An exit** goes to another task. -/
theorem Kept.exit (hk : t.Kept a) (hf : t.kernel.Follows a) (hbusy : a.current ≠ a.idle)
    (hst : t.kernel.step (.exit ebp) = some k') (hf' : k'.Follows (a.retire hbusy)) :
    Kept ⟨k', t.kernel.saves t.saved (.exit ebp)⟩ (a.retire hbusy)
      ∧ (t.Resumes (.exit ebp) ↔ t.InPlace (.exit ebp)) := by
  have hptr := Kernel.pointers_exit hst
  rw [hf'.threads.current_eq] at hptr
  have hmem : (a.retire hbusy).current ∈ a.ready ∨ (a.retire hbusy).current = a.idle := by
    show a.ready.headD a.idle ∈ a.ready ∨ a.ready.headD a.idle = a.idle
    cases a.ready with
    | nil => exact Or.inr rfl
    | cons s ss => exact Or.inl List.mem_cons_self
  have hne : (a.retire hbusy).current ≠ t.kernel.sched.current := by
    rw [hf.threads.current_eq]
    intro he
    rcases he ▸ hmem with hm | hi
    · exact a.current_notMem.2 hm
    · exact hbusy hi
  refine ⟨hk.switch hptr rfl (fun s hs => Or.inl (List.mem_of_mem_tail hs)), ?_⟩
  rw [resumes_iff_of_next hst (Kernel.next_exit hf hbusy ebp)]
  refine (hk.switch_iff hptr fun _ => hmem).trans ?_
  exact iff_of_true (fun he => absurd he hne) (inPlace_of_ne (by simp))

/-- **Every step** keeps pointers and saves together, and a dispatch resumes
the task where it is saved exactly if it is not that of a process that yields
alone and elsewhere. -/
theorem kept_of_step (hf : t.kernel.Follows a) (hk : t.Kept a) (hlast : 0 ≤ a.lastPid)
    (hst : t.kernel.step e = some k') :
    ∃ a', k'.Follows a' ∧ Kept ⟨k', t.kernel.saves t.saved e⟩ a' ∧ 0 ≤ a'.lastPid
      ∧ (t.Resumes e ↔ t.InPlace e) := by
  obtain ⟨a', hf', ho, hen⟩ := hf.step hst
  have hlast' : 0 ≤ a'.lastPid := hlast.trans ho.lastPid_le
  cases e with
  | tick ebp =>
    obtain ⟨hkept, hiff⟩ := hk.tick hf hst
    refine ⟨_, Kernel.follows_tick hf hst, hkept, ?_, hiff⟩
    split_ifs
    · exact hlast.trans (le_of_eq a.rotate_eq.2.2.2.1.symm)
    · exact hlast
  | yield ebp =>
    generalize k'.mm = m' at ho
    cases ho
    obtain ⟨hkept, hiff⟩ := hk.yield hf hst
    exact ⟨a.rotate, hf', hkept, hlast', hiff⟩
  | exit ebp =>
    generalize k'.mm = m' at ho
    cases ho with
    | exit ebp hbusy =>
      obtain ⟨hkept, hiff⟩ := hk.exit hf hbusy hst hf'
      exact ⟨a.retire hbusy, hf', hkept, hlast', hiff⟩
  | fork ebp =>
    refine ⟨a', hf', hk.fork hf hlast hst ho, hlast', ?_⟩
    exact iff_of_true (resumes_of_none rfl) (inPlace_of_ne (by simp))
  | key c past | load addr | fault cr2 | shmat id addr | shmdt addr | shmrm id
  | read b maxchars | getStats pid st =>
    generalize k'.mm = m' at ho
    cases ho
    obtain ⟨hkept, hiff⟩ := hk.plain hst (by simp) (by simp) (by simp) (by simp) rfl rfl
    exact ⟨a, hf', hkept, hlast', hiff⟩
  | store addr b =>
    have ha : a' = a := by
      generalize k'.mm = m' at ho
      cases ho <;> rfl
    obtain ⟨hkept, hiff⟩ := hk.plain hst (by simp) (by simp) (by simp) (by simp) rfl rfl
    exact ⟨a', hf', ha ▸ hkept, hlast', hiff⟩

/-- At boot only the idle task can be chosen. -/
theorem kept_boot (M : Machine) : (boot M).Kept bootSchedule := by
  rintro s (hm | rfl)
  · exact absurd hm List.not_mem_nil
  · rfl

/-- **Every run** keeps pointers and saves together. -/
theorem kept_of_run {M : Machine} {P : Traced → Event → Prop} {es : List Event}
    (h : Run step P (boot M) es t) : ∃ a, t.kernel.Follows a ∧ t.Kept a ∧ 0 ≤ a.lastPid := by
  refine h.invariant (I := fun t => ∃ a, t.kernel.Follows a ∧ t.Kept a ∧ 0 ≤ a.lastPid) ?_
    ⟨bootSchedule, follows_boot M, kept_boot M, by decide⟩
  rintro u e v ⟨a, hf, hk, hlast⟩ - hst
  obtain ⟨k', hk', rfl⟩ := Option.map_eq_some_iff.mp hst
  obtain ⟨a', hf', hkept, hlast', -⟩ := kept_of_step hf hk hlast hk'
  exact ⟨a', hf', hkept, hlast'⟩

end Traced

/-- **Where every task resumes at its last save.** A step from a reachable
state resumes whom it dispatches at its last save exactly if it is not a
yield of a process that is alone and elsewhere than when it was last switched
out. So in a run every dispatch does exactly if no such yield is in it. -/
theorem resumes_iff (M : Machine) (es : List Event) (t : Traced)
    (h : Run Traced.step (fun _ _ => True) (Traced.boot M) es t) :
    (∀ e t', t.step e = some t' → (t.Resumes e ↔ t.InPlace e))
      ∧ (Run Traced.step Traced.Resumes (Traced.boot M) es t
        ↔ Run Traced.step Traced.InPlace (Traced.boot M) es t) := by
  have hone : ∀ {P : Traced → Event → Prop} {es t e t'}, Run Traced.step P (Traced.boot M) es t →
      t.step e = some t' → (t.Resumes e ↔ t.InPlace e) := by
    intro P es t e t' h hst
    obtain ⟨a, hf, hk, hlast⟩ := Traced.kept_of_run h
    obtain ⟨k', hk', -⟩ := Option.map_eq_some_iff.mp hst
    obtain ⟨-, -, -, -, hiff⟩ := Traced.kept_of_step hf hk hlast hk'
    exact hiff
  exact ⟨fun e t' hst => hone h hst,
    fun hrun => hrun.weaken fun _ _ _ _ hpre hst => (hone hpre hst).mp,
    fun hrun => hrun.weaken fun _ _ _ _ hpre hst => (hone hpre hst).mpr⟩

/-- The first process has forked and yields to the child, which starts on the
stack prepared for it. -/
theorem resumes_iff_fork :
    ∃ t t', Run Traced.step (fun _ _ => True) (Traced.boot Machine.sample) [.fork 0x22fc4] t
      ∧ t.step (.yield 0x22fd4) = some t' ∧ t.Resumes (.yield 0x22fd4) := by
  obtain ⟨k, hst, hf, -⟩ := exists_first_fork Machine.sample 0x22fc4
  obtain ⟨k', hst', -⟩ := Kernel.exists_yield hf (by decide) 0x22fd4
  obtain ⟨saved, hstep⟩ : ∃ saved, (Traced.boot Machine.sample).step (.fork 0x22fc4)
      = some ⟨k, saved⟩ := ⟨_, Traced.step_of_kernel (t := Traced.boot Machine.sample) hst⟩
  have hrun := Run.single (P := fun _ _ => True) trivial hstep
  have hstep' := Traced.step_of_kernel (t := ⟨k, saved⟩) hst'
  refine ⟨_, _, hrun, hstep', ((resumes_iff Machine.sample _ _ hrun).1 _ _ hstep').mpr ?_⟩
  rintro ebp - hready
  have hne : k.readySlots ≠ [] := by
    rw [Kernel.readySlots_eq hf.threads]
    decide
  exact absurd hready hne

/-- **A process that yields alone is lost.** The first process yields from
the frame at `0x22fc4` before it has ever been switched out: the frame is
saved, and the stack pointer loaded is 0. -/
theorem not_resumes_alone :
    ∃ t', (Traced.boot Machine.sample).step (.yield 0x22fc4) = some t'
      ∧ (Traced.boot Machine.sample).kernel.next (.yield 0x22fc4) = some 1
      ∧ (Traced.boot Machine.sample).kernel.sched.current = 1
      ∧ t'.saved 1 = some 0x22fc4 ∧ t'.kernel.sched.esp = 0
      ∧ ¬ (Traced.boot Machine.sample).Resumes (.yield 0x22fc4) := by
  have hf := follows_boot Machine.sample
  obtain ⟨k', hst, -⟩ := Kernel.exists_yield hf (by decide) 0x22fc4
  have hptr := Kernel.pointers_yield hf hst
  have hnext : Machine.sample.boot.next (.yield 0x22fc4) = some 1 := Kernel.next_yield hf _
  have hesp : k'.sched.esp = 0 := congrArg Pointers.esp hptr
  have hstep := Traced.step_of_kernel (t := Traced.boot Machine.sample) hst
  refine ⟨_, hstep, hnext, rfl, rfl, hesp, fun h => ?_⟩
  have hloaded : (some 0x22fc4 : Option DWord) = some k'.sched.esp := h _ 1 hstep hnext
  rw [hesp] at hloaded
  exact absurd hloaded (by decide)

end ZeOS.Practica
