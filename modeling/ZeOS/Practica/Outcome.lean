import ZeOS.Practica.FaultPages
import ZeOS.Practica.Threads

/-!
# What a step can do

Every event of the system, read on the schedule and the memory: the queues
and the task array are gone, and of the memory there is what the loops of
`sys_fork`, `sys_exit` and the fault handler do to it in closed form. An
invariant of whole runs is shown by cases on `Outcome`.
-/

namespace ZeOS.Practica

/-! ## Page faults -/

/-- **What a page fault at a page does**: an entry whose frame has count one
is made writable, a page whose frame has a larger count is copied. -/
inductive Mm.Faulted (m : Mm) (s : Slot) (posicion : ℕ) : Mm → Prop
  | opened (hp : posicion < totalPages)
      (hcount : m.physMem (getFrame (m.pagusrTable s) posicion) = 1) :
      Faulted m s posicion (m.setTable s (setRw (m.pagusrTable s) posicion true))
  | copied (hp : posicion < totalPages)
      (hframe : getFrame (m.pagusrTable s) posicion < totalPages)
      (hcount : 2 ≤ m.physMem (getFrame (m.pagusrTable s) posicion)) :
      Faulted m s posicion (m.copyOnWrite s s posicion)

/-- **What an event does** to a schedule and a memory. -/
inductive Outcome (a : Schedule) (m : Mm) : Event → Schedule → Mm → Prop
  | stay (ebp : DWord) : Outcome a m (.tick ebp) a m
  | switch (ebp : DWord) (hready : a.ready ≠ []) : Outcome a m (.tick ebp) a.rotate m
  | key (c past : Byte) : Outcome a m (.key c past) a m
  | load (addr : DWord) (hload : (m.userLoad a.current addr.toNat).isSome) :
      Outcome a m (.load addr) a m
  | store (addr : DWord) (b : Byte) (loc : Location)
      (hcan : m.userCanStore a.current addr.toNat = true)
      (hloc : m.translate a.current addr.toNat = some loc) (hframe : numPagKernel ≤ loc.1) :
      Outcome a m (.store addr b) a { m with ram := Function.update m.ram loc b }
  | storeFault (addr : DWord) (b : Byte) (m₁ : Mm) (loc : Location)
      (hcan : m.userCanStore a.current addr.toNat = false)
      (hfault : m.Faulted a.current (pageOf addr) m₁)
      (hcan₁ : m₁.userCanStore a.current addr.toNat = true)
      (hloc : m₁.translate a.current addr.toNat = some loc) (hframe : numPagKernel ≤ loc.1) :
      Outcome a m (.store addr b) a { m₁ with ram := Function.update m₁.ram loc b }
  | fault (cr2 : DWord) (m₁ : Mm) (hcan : m.userCanStore a.current cr2.toNat = false)
      (hfault : m.Faulted a.current (pageOf cr2) m₁) : Outcome a m (.fault cr2) a m₁
  | forkNone (ebp : DWord) (hfree : a.free = []) : Outcome a m (.fork ebp) a m
  | forkFail (ebp : DWord) (c : Slot) (cs : List Slot) (hfree : a.free = c :: cs)
      (hlen : (freeFrames m.physMem).length < numPagData) :
      Outcome a m (.fork ebp) (a.giveUp c cs hfree) (m.allocDataPages c 0 numPagData).2
  | forkOk (ebp : DWord) (c : Slot) (cs : List Slot) (hfree : a.free = c :: cs)
      (hidle : a.current ≠ a.idle) (hlen : numPagData ≤ (freeFrames m.physMem).length) :
      Outcome a m (.fork ebp) (a.spawn c cs hfree hidle)
        ((m.withFrames c numPagData).forkPages a.current c)
  | exit (ebp : DWord) (hidle : a.current ≠ a.idle) :
      Outcome a m (.exit ebp) (a.retire hidle) (m.exitPages a.current)
  | yield (ebp : DWord) : Outcome a m (.yield ebp) a.rotate m
  | shmat (id addr : DWord) : Outcome a m (.shmat id addr) a (m.sysShmat a.current id addr).2
  | shmdt (addr : DWord) : Outcome a m (.shmdt addr) a (m.sysShmdt a.current a.current addr).2
  | shmrm (id : DWord) : Outcome a m (.shmrm id) a (m.sysShmrm id).2
  | read (b maxchars : DWord) (ram : Location → Byte) :
      Outcome a m (.read b maxchars) a { m with ram := ram }
  | getStats (pid st : DWord) (ram : Location → Byte) :
      Outcome a m (.getStats pid st) a { m with ram := ram }

namespace Mm

variable {m : Mm} {s : Slot}

/-! ## The mark is never taken back -/

/-- What every store keeps, the copy loop keeps. -/
theorem copyBytes_induct {M : Type*} {load : M → ℕ → Byte} {store : M → ℕ → Byte → M}
    {I : M → Prop} (hstore : ∀ m q b, I m → I (store m q b)) {m : M} (hm : I m) (p q size : ℕ) :
    I (copyBytes load store m p q size) := by
  induction size generalizing m p q with
  | zero => exact hm
  | succ size ih => exact ih (hstore m q _ hm) (p + 1) (q + 1)

theorem copyLoop_induct {M : Type*} {load : M → ℕ → Byte} {store : M → ℕ → Byte → M}
    {I : M → Prop} (hstore : ∀ m q b, I m → I (store m q b)) {m : M} (hm : I m) (p q size : ℕ) :
    I (copyLoop load store m p q size) := by
  induction size using Nat.strong_induction_on generalizing m p q with
  | _ size ih =>
    match size with
    | 0 => exact copyBytes_induct hstore hm p q 0
    | 1 => exact copyBytes_induct hstore hm p q 1
    | 2 => exact copyBytes_induct hstore hm p q 2
    | 3 => exact copyBytes_induct hstore hm p q 3
    | 4 => exact copyBytes_induct hstore hm p q 4
    | size + 5 =>
      rw [copyLoop]
      refine ih (size + 1) (by omega) ?_ (p + 4) (q + 4)
      exact hstore _ _ _ (hstore _ _ _ (hstore _ _ _ (hstore _ _ _ hm)))

/-- Two memories that differ in their bytes and in the mark, which may have
been raised. -/
structure RamOnly (m m' : Mm) : Prop where
  physMem : m'.physMem = m.physMem
  pagusrTable : m'.pagusrTable = m.pagusrTable
  shmMem : m'.shmMem = m.shmMem
  stuck : m'.stuck = false → m.stuck = false

theorem RamOnly.refl (m : Mm) : RamOnly m m := ⟨rfl, rfl, rfl, id⟩

theorem RamOnly.trans {m₁ m₂ m₃ : Mm} (h₁ : RamOnly m₁ m₂) (h₂ : RamOnly m₂ m₃) :
    RamOnly m₁ m₃ :=
  ⟨h₂.physMem.trans h₁.physMem, h₂.pagusrTable.trans h₁.pagusrTable,
    h₂.shmMem.trans h₁.shmMem, fun h => h₁.stuck (h₂.stuck h)⟩

/-- Where the mark is still down, only bytes differ. -/
theorem RamOnly.eq {m' : Mm} (h : RamOnly m m') (hs : m'.stuck = false) :
    m' = { m with ram := m'.ram } :=
  Mm.ext h.physMem h.pagusrTable h.shmMem rfl (hs.trans (h.stuck hs).symm)

theorem ramOnly_kernelStore (m : Mm) (s : Slot) (addr : ℕ) (b : Byte) :
    RamOnly m (m.kernelStore s addr b) := by
  unfold kernelStore
  cases m.translate s addr with
  | none => exact ⟨rfl, rfl, rfl, fun h => absurd h (by simp)⟩
  | some loc => exact ⟨rfl, rfl, rfl, fun h => (Bool.or_eq_false_iff.mp h).1⟩

theorem ramOnly_copyToUser (m : Mm) (s : Slot) (start : ℕ → Byte) (dest size : ℕ) :
    RamOnly m (copyToUser s m start dest size) :=
  copyLoop_induct (I := RamOnly m)
    (fun m' q b h => h.trans (ramOnly_kernelStore m' s q b)) (RamOnly.refl m) 0 dest size

theorem ramOnly_copyData (m : Mm) (s : Slot) (start dest size : ℕ) :
    RamOnly m (copyData s m start dest size) :=
  copyLoop_induct (I := RamOnly m)
    (fun m' q b h => h.trans (ramOnly_kernelStore m' s q b)) (RamOnly.refl m) start dest size

theorem require_stuck (m : Mm) (p : Prop) [Decidable p] :
    (m.require p).stuck = false ↔ m.stuck = false ∧ p := by
  rw [require, Bool.or_eq_false_iff, Bool.not_eq_false', decide_eq_true_iff]

theorem stuck_copyThrough {posicion : ℕ} {frame : ℤ}
    (h : (m.copyThrough s s posicion frame).stuck = false) : m.stuck = false := by
  set m₁ : Mm := m.setTable s (setSsPag (m.pagusrTable s) paginaAUsar frame)
  set m₂ : Mm := m₁.require (m₁.translate s (posicion * pageSize)).isSome
  have hcopy : (m.copyThrough s s posicion frame).stuck
      = (copyData s m₂ (posicion * pageSize) (paginaAUsar * pageSize) pageSize).stuck := by
    unfold copyThrough
    dsimp only
    rw [giveBack_stuck]
  have hst₂ : m₂.stuck = false := (ramOnly_copyData m₂ s _ _ _).stuck (hcopy ▸ h)
  exact ((require_stuck m₁ _).mp hst₂).1

theorem stuck_copyOnWrite {posicion : ℕ} (h : (m.copyOnWrite s s posicion).stuck = false) :
    m.stuck = false := by
  unfold copyOnWrite at h
  dsimp only at h
  generalize allocFrame _ = r at h
  obtain ⟨frame, phys⟩ := r
  exact stuck_copyThrough (m := { m with physMem := phys }) h

@[simp] theorem require_shmMem (m : Mm) (p : Prop) [Decidable p] :
    (m.require p).shmMem = m.shmMem := rfl

/-- The copy leaves the segments. -/
theorem copyThrough_shmMem (m : Mm) (s : Slot) (posicion : ℕ) (frame : ℤ) :
    (m.copyThrough s s posicion frame).shmMem = m.shmMem := by
  rw [copyThrough, giveBack_shmMem, (ramOnly_copyData _ s _ _ _).shmMem, require_shmMem,
    setTable_shmMem]

/-- So does the fault handler. -/
theorem Faulted.shmMem {posicion : ℕ} {m' : Mm} (h : m.Faulted s posicion m') :
    m'.shmMem = m.shmMem := by
  cases h with
  | opened => rfl
  | copied =>
    unfold copyOnWrite
    extract_lets shared counted
    generalize allocFrame counted = r
    obtain ⟨frame, phys⟩ := r
    exact copyThrough_shmMem { m with physMem := phys } s posicion frame

/-- **The fault handler**, where it returns and the mark stays down. -/
theorem faulted_of_pagefaultRoutine {m' : Mm} {cr2 : DWord}
    (h : m.pagefaultRoutine s s cr2 = some m') (hs : m'.stuck = false) :
    m.Faulted s (pageOf cr2) m' := by
  unfold pagefaultRoutine at h
  dsimp only at h
  -- the two marks the handler can raise before it looks at the count
  set m₁ := (m.require (pageOf cr2 < totalPages)).require
    (getFrame ((m.require (pageOf cr2 < totalPages)).pagusrTable s) (pageOf cr2) < totalPages)
    with hm₁
  have hdown : m₁.stuck = false → m₁ = m ∧ pageOf cr2 < totalPages
      ∧ getFrame (m.pagusrTable s) (pageOf cr2) < totalPages := by
    intro hst
    obtain ⟨hst₁, hframe⟩ := (require_stuck _ _).mp hst
    obtain ⟨hst₂, hpage⟩ := (require_stuck _ _).mp hst₁
    exact ⟨Mm.ext rfl rfl rfl rfl (hst.trans hst₂.symm), hpage, hframe⟩
  split_ifs at h with h0 h1
  · obtain rfl := Option.some_inj.mp h
    obtain ⟨he, hpage, -⟩ := hdown hs
    rw [he]
    exact Faulted.opened hpage h1
  · obtain rfl := Option.some_inj.mp h
    obtain ⟨he, hpage, hframe⟩ := hdown (stuck_copyOnWrite hs)
    rw [he]
    refine Faulted.copied hpage hframe ?_
    have h0' : m.physMem (getFrame (m.pagusrTable s) (pageOf cr2)) ≠ 0 := h0
    have h1' : m.physMem (getFrame (m.pagusrTable s) (pageOf cr2)) ≠ 1 := h1
    omega

end Mm

/-! ## The system calls on the schedule -/

namespace Kernel

variable {k : Kernel} {a : Schedule}

/-- **`sys_fork`**, in its three outcomes. -/
theorem sysFork_none (h : k.sched.Threads a) (hfree : a.free = []) (ebp : DWord) :
    k.sysFork ebp = (-eNOMEM, k) := by
  rw [sysFork, if_pos (h.listEmpty_free.mpr hfree)]

/-- The slot `sys_fork` takes. -/
theorem sysFork_cons (h : k.sched.Threads a) {c : Slot} {cs : List Slot}
    (hfree : a.free = c :: cs) (ebp : DWord) :
    k.sysFork ebp =
      match k.mm.allocDataPages c 0 numPagData with
      | (false, m) =>
        (-eAGAIN, { k with mm := m, sched := (k.sched.reserve c).linkTail (.task c) .freequeue })
      | (true, m) =>
        ((((k.sched.reserve c).startChild ebp c).task c).pid,
          { k with
            mm := m.forkPages a.current c, sched := (k.sched.reserve c).startChild ebp c }) := by
  have hempty : ¬ listEmpty k.sched.links .freequeue = true :=
    fun he => by simpa [hfree] using h.listEmpty_free.mp he
  have hring := h.freeRing
  rw [hfree] at hring
  have hfirst : (listFirst k.sched.links .freequeue).bind Sched.listHeadToTaskStruct = some c := by
    rw [listFirst, hring.next_head]
    rfl
  obtain ⟨h', hres, -, -⟩ := Sched.reserve_spec h hfree
  have hcc : a.current ≠ c := fun he => a.current_notMem.1 (hfree ▸ he ▸ List.mem_cons_self)
  have hptc : (k.sched.reserve c).getPt c = c := by
    rw [hres]
    simp only [Sched.getPt, if_true]
  have hptp : (k.sched.reserve c).getPt (k.sched.reserve c).current = a.current := by
    rw [hres]
    simp only [Sched.getPt, h.current_eq, if_neg hcc]
    exact h.dir_eq a.current a.current_notMem.1
  rw [sysFork, if_neg hempty, hfirst]
  show (match k.mm.allocDataPages ((k.sched.reserve c).getPt c) 0 numPagData with
    | (false, m) =>
      (-eAGAIN, { k with mm := m, sched := (k.sched.reserve c).linkTail (.task c) .freequeue })
    | (true, m) =>
      ((((k.sched.reserve c).startChild ebp c).task c).pid,
        { k with
          mm := m.forkPages ((k.sched.reserve c).getPt (k.sched.reserve c).current)
            ((k.sched.reserve c).getPt c)
          sched := (k.sched.reserve c).startChild ebp c }) : ℤ × Kernel) = _
  rw [hptc, hptp]

theorem sysFork_fail (h : k.sched.Threads a) {c : Slot} {cs : List Slot}
    (hfree : a.free = c :: cs) (hlen : (freeFrames k.mm.physMem).length < numPagData)
    (ebp : DWord) :
    ∃ s', k.sysFork ebp
        = (-eAGAIN, { k with mm := (k.mm.allocDataPages c 0 numPagData).2, sched := s' })
      ∧ s'.Threads (a.giveUp c cs hfree) ∧ s'.stuck = k.sched.stuck := by
  have hfst := Mm.allocDataPages_fst k.mm c
  rw [decide_eq_false (Nat.not_le.mpr hlen)] at hfst
  refine ⟨_, ?_, Sched.threads_giveUp h hfree⟩
  rw [sysFork_cons h hfree]
  cases hal : k.mm.allocDataPages c 0 numPagData with
  | mk b m =>
    rw [hal] at hfst
    obtain rfl : b = false := hfst
    rfl

theorem sysFork_ok (h : k.sched.Threads a) {c : Slot} {cs : List Slot}
    (hfree : a.free = c :: cs) (hidle : a.current ≠ a.idle)
    (hlen : numPagData ≤ (freeFrames k.mm.physMem).length) (ebp : DWord) :
    ∃ s', k.sysFork ebp
        = (a.lastPid + 1,
          { k with mm := (k.mm.withFrames c numPagData).forkPages a.current c, sched := s' })
      ∧ s'.Threads (a.spawn c cs hfree hidle)
      ∧ s'.stuck = (k.sched.stuck || !decide (a.lastPid + 1 < 2 ^ 31)) := by
  obtain ⟨hth, hst⟩ := Sched.threads_spawn h hfree hidle ebp
  refine ⟨_, ?_, hth, hst⟩
  rw [sysFork_cons h hfree, Mm.allocDataPages_of_le k.mm c hlen]
  refine Prod.ext ?_ rfl
  exact (hth.pid_eq c).trans (Function.update_self c _ _)

/-- **`sys_exit`.** -/
theorem sysExit_spec (h : k.sched.Threads a) (hidle : a.current ≠ a.idle) (ebp : DWord) :
    ∃ s', k.sysExit ebp = { k with mm := k.mm.exitPages a.current, sched := s' }
      ∧ s'.Threads (a.retire hidle) ∧ s'.stuck = k.sched.stuck := by
  have hpt := h.getPt_current
  obtain ⟨h', hadd, -, -⟩ := Sched.linkTail_eq h.freeRing (by simp) a.current_notMem.1
  have hcur : (k.sched.linkTail (.task k.sched.current) .freequeue).current = k.sched.current := by
    rw [h.current_eq, hadd]
    exact h.current_eq
  refine ⟨_, ?_, Sched.threads_exit h hidle ebp⟩
  rw [sysExit, hpt]
  simp only [hcur]

/-! ## Steps -/

/-- **A step**: the event is enabled, something performs it, and no mark is
up afterwards. -/
theorem step_eq_some_iff {e : Event} {k' : Kernel} :
    k.step e = some k' ↔ (e.byTask = true → k.sched.current ≠ k.sched.idleTask)
      ∧ k.perform e = some k' ∧ k'.mm.stuck = false ∧ k'.sched.stuck = false
      ∧ k'.mm.CountsFit := by
  unfold step
  simp only [Bool.and_eq_true, decide_eq_true_iff]
  by_cases hen : e.byTask = true ∧ k.sched.current = k.sched.idleTask
  · rw [if_pos hen]
    exact ⟨fun h => absurd h (by simp), fun h => absurd hen.2 (h.1 hen.1)⟩
  · rw [if_neg hen]
    have hen' : e.byTask = true → k.sched.current ≠ k.sched.idleTask := fun h₁ h₂ => hen ⟨h₁, h₂⟩
    cases hp : k.perform e with
    | none => simp
    | some k₁ =>
      simp only [Option.some_inj]
      split_ifs with hst
      · refine ⟨fun h => absurd h (by simp), ?_⟩
        rintro ⟨-, rfl, h₁, h₂, h₃⟩
        simp [h₁, h₂, h₃] at hst
      · rw [Bool.not_eq_true, Bool.or_eq_false_iff, Bool.or_eq_false_iff, Bool.not_eq_false',
          decide_eq_true_iff, and_assoc] at hst
        constructor
        · rintro ⟨rfl⟩
          exact ⟨hen', rfl, hst⟩
        · rintro ⟨-, rfl, -⟩
          rfl

/-- The schedule is not touched on the way into the kernel. -/
theorem threads_enter (h : k.sched.Threads a) (e : Epilogue) :
    (k.sched.enter e).Threads a := h.same (Sched.same_enter _ _)

/-- The scheduler inside an interrupt or an exception. -/
def interrupted (k : Kernel) : Sched := (k.sched.enter .interruptHandler).userToSystem

theorem same_interrupted (k : Kernel) : k.sched.Same k.interrupted :=
  (Sched.same_enter _ _).trans (Sched.same_updateStats _ _ _)

theorem threads_interrupt (h : k.sched.Threads a) :
    ((k.sched.enter .interruptHandler).userToSystem).Threads a :=
  h.same k.same_interrupted

/-- The state a system call runs on. -/
def entered (k : Kernel) : Kernel := { k with sched := k.sched.enter .systemCallHandler }

theorem entered_mm (k : Kernel) : k.entered.mm = k.mm := rfl

theorem systemCall_mm (k : Kernel) (f : Kernel → Kernel) :
    (k.systemCall f).mm = (f k.entered).mm := rfl

theorem threads_systemCall {f : Kernel → Kernel} {a' : Schedule}
    (h : (f k.entered).sched.Threads a') :
    (k.systemCall f).sched.Threads a' := h.same (Sched.same_leave _)

/-- The keyboard touches its buffer only. -/
theorem keyboardRoutine_frame (k : Kernel) (c past : Byte) :
    (k.keyboardRoutine c past).mm = k.mm ∧ (k.keyboardRoutine c past).sched = k.sched := by
  unfold keyboardRoutine
  dsimp only
  split_ifs <;> exact ⟨rfl, rfl⟩

/-- A user store changes the memory only. -/
theorem exists_userStore {addr : DWord} {b : Byte} {k' : Kernel}
    (h : k.userStore addr b = some k') : ∃ m, k' = { k with mm := m } := by
  unfold userStore at h
  split_ifs at h
  obtain ⟨loc, -, rfl⟩ := Option.map_eq_some_iff.mp h
  exact ⟨_, rfl⟩

/-- A page fault changes the memory, between the entry and the exit of the
exception. -/
theorem exists_pagefault {cr2 : DWord} {k' : Kernel} (h : k.pagefault cr2 = some k') :
    ∃ m, k' = { k with mm := m, sched := k.interrupted.leave } := by
  obtain ⟨m, -, rfl⟩ := Option.map_eq_some_iff.mp h
  exact ⟨m, rfl⟩

/-- A load changes nothing. -/
theorem eq_of_perform_load {addr : DWord} {k' : Kernel} (h : k.perform (.load addr) = some k') :
    k' = k := by
  simp only [perform] at h
  split_ifs at h
  exact (Option.some_inj.mp h).symm

/-- A store changes the memory, and goes through the exception if the page is
not writable. -/
theorem exists_of_perform_store {addr : DWord} {b : Byte} {k' : Kernel}
    (h : k.perform (.store addr b) = some k') :
    ∃ m, k' = { k with
      mm := m
      sched := if k.mm.userCanStore k.sched.cr3 addr.toNat then k.sched
        else k.interrupted.leave } := by
  simp only [perform] at h
  split_ifs at h ⊢
  · exact exists_userStore h
  · obtain ⟨k₁, hfault, hstore⟩ := Option.bind_eq_some_iff.mp h
    obtain ⟨m, rfl⟩ := exists_pagefault hfault
    exact exists_userStore hstore

theorem exists_of_perform_fault {cr2 : DWord} {k' : Kernel}
    (h : k.perform (.fault cr2) = some k') :
    ∃ m, k' = { k with mm := m, sched := k.interrupted.leave } := by
  simp only [perform] at h
  split_ifs at h
  exact exists_pagefault h

/-- A user store that goes through. -/
theorem userStore_eq_some {addr : DWord} {b : Byte} {k' : Kernel}
    (h : k.userStore addr b = some k') (hs : k'.mm.stuck = false) :
    ∃ loc, k.mm.userCanStore k.sched.cr3 addr.toNat = true
      ∧ k.mm.translate k.sched.cr3 addr.toNat = some loc ∧ numPagKernel ≤ loc.1
      ∧ k' = { k with mm := { k.mm with ram := Function.update k.mm.ram loc b } } := by
  unfold userStore at h
  split_ifs at h with hcan
  obtain ⟨loc, hloc, rfl⟩ := Option.map_eq_some_iff.mp h
  obtain ⟨hst, hframe⟩ := (Mm.require_stuck _ _).mp hs
  refine ⟨loc, hcan, hloc, hframe, ?_⟩
  have hstore : k.mm.store loc b = { k.mm with ram := Function.update k.mm.ram loc b } :=
    Mm.ext rfl rfl rfl rfl (hs.trans hst.symm)
  rw [hstore]

/-- A page fault that is handled. -/
theorem pagefault_eq_some (h : k.sched.Threads a) {cr2 : DWord} {k' : Kernel}
    (hf : k.pagefault cr2 = some k') (hs : k'.mm.stuck = false) :
    k'.sched.Threads a ∧ k.mm.Faulted a.current (pageOf cr2) k'.mm := by
  have h₁ := threads_interrupt h
  have hpt := h₁.dir_eq a.current a.current_notMem.1
  obtain ⟨m, hm, rfl⟩ := Option.map_eq_some_iff.mp hf
  rw [h₁.cr3_eq, h₁.current_eq, hpt] at hm
  exact ⟨h₁.same (Sched.same_leave _), Mm.faulted_of_pagefaultRoutine hm hs⟩

/-- The copies of `sys_read` change bytes only. -/
theorem ramOnly_foldl_readChar (k : Kernel) (b : DWord) (l : List ℕ) :
    Mm.RamOnly k.mm (l.foldl (readChar b) k).mm
      ∧ (l.foldl (readChar b) k).sched = k.sched := by
  induction l generalizing k with
  | nil => exact ⟨Mm.RamOnly.refl k.mm, rfl⟩
  | cons i l ih =>
    obtain ⟨h₁, h₂⟩ := ih (k.readChar b i)
    exact ⟨(Mm.ramOnly_copyToUser k.mm _ _ _ _).trans h₁, h₂⟩

theorem ramOnly_sysRead (k : Kernel) (b maxchars : DWord) :
    Mm.RamOnly k.mm (k.sysRead b maxchars).2.mm ∧ (k.sysRead b maxchars).2.sched = k.sched := by
  unfold sysRead
  by_cases hok : (!accessOk k.currentPt .verifyWrite b maxchars) = true
  · rw [if_pos hok]
    exact ⟨Mm.RamOnly.refl k.mm, rfl⟩
  · rw [if_neg hok]
    exact ramOnly_foldl_readChar k b _

theorem ramOnly_sysGetStats (k : Kernel) (pid st : DWord) :
    Mm.RamOnly k.mm (k.sysGetStats pid st).2.mm
      ∧ k.sched.Same (k.sysGetStats pid st).2.sched := by
  unfold sysGetStats
  split_ifs
  · exact ⟨Mm.RamOnly.refl k.mm, Sched.Same.refl _⟩
  · exact ⟨Mm.RamOnly.refl k.mm, Sched.Same.refl _⟩
  · cases (List.finRange nrTasks).find? _ with
    | none => exact ⟨Mm.RamOnly.refl k.mm, Sched.Same.refl _⟩
    | some i =>
      dsimp only
      refine ⟨Mm.ramOnly_copyToUser k.mm _ _ _ _, ?_⟩
      exact Sched.same_modifyTask k.sched i _ (fun _ => ⟨rfl, rfl, rfl⟩)

/-- The slot `sys_get_stats` answers for. -/
def statsSlot (k : Kernel) (pid : DWord) : Option Slot :=
  if pid.toInt < 0 then none
  else (List.finRange nrTasks).find? (fun i => decide ((k.sched.task i).pid = pid.toInt))

/-- What it gives of a slot: the statistics in its struct, with the quantum
that is left. -/
def statsOf (k : Kernel) (s : Slot) : Stats :=
  { (k.sched.task s).pStats with remainingTicks := BitVec.ofInt 32 k.sched.remainingQuantum }

/-- **`sys_get_stats`** with a buffer that is accepted. -/
theorem sysGetStats_of_some {k : Kernel} {pid st : DWord} {i : Slot}
    (hok : accessOk k.currentPt .verifyWrite st (BitVec.ofNat 32 Stats.size) = true)
    (hslot : k.statsSlot pid = some i) :
    (k.sysGetStats pid st).1 = 0
      ∧ (k.sysGetStats pid st).2.mm
        = copyToUser k.sched.cr3 k.mm (k.statsOf i).byte st.toNat Stats.size := by
  unfold statsSlot at hslot
  split_ifs at hslot with hneg
  rw [sysGetStats, if_neg (by simp [hok]), if_neg hneg, hslot]
  refine ⟨rfl, ?_⟩
  simp only [Sched.modifyTask, statsOf, if_true]

theorem sysGetStats_of_none {k : Kernel} {pid st : DWord}
    (hok : accessOk k.currentPt .verifyWrite st (BitVec.ofNat 32 Stats.size) = true)
    (hslot : k.statsSlot pid = none) :
    k.sysGetStats pid st = (if pid.toInt < 0 then -eINVAL else -eSRCH, k) := by
  unfold statsSlot at hslot
  rw [sysGetStats, if_neg (by simp [hok])]
  by_cases hneg : pid.toInt < 0
  · rw [if_pos hneg, if_pos hneg]
  · rw [if_neg hneg] at hslot
    rw [if_neg hneg, if_neg hneg, hslot]

/-- **What a step does to the schedule and the memory.** -/
theorem outcome_of_step (h : k.sched.Threads a) {e : Event} {k' : Kernel}
    (hstep : k.step e = some k') :
    ∃ a', k'.sched.Threads a' ∧ Outcome a k.mm e a' k'.mm := by
  obtain ⟨hen, hperf, hmm, -⟩ := step_eq_some_iff.mp hstep
  rw [h.current_eq, h.idle_eq] at hen
  have hentry : k.entered.sched.Threads a := threads_enter h .systemCallHandler
  have hpt := hentry.getPt_current
  cases e with
  | tick ebp =>
    obtain rfl := Option.some_inj.mp hperf
    have h₁ : ((k.sched.enter .interruptHandler).userToSystem).Threads a := threads_interrupt h
    rcases (Sched.threads_schedule h₁ ebp).1 with h₂ | ⟨hready, h₂⟩
    · exact ⟨a, h₂.same (Sched.same_leave _), Outcome.stay ebp⟩
    · exact ⟨a.rotate, h₂.same (Sched.same_leave _), Outcome.switch ebp hready⟩
  | key c past =>
    obtain rfl := Option.some_inj.mp hperf
    have h₁ : ((k.sched.enter .interruptHandler).userToSystem).Threads a := threads_interrupt h
    obtain ⟨hm, hs⟩ := keyboardRoutine_frame
      { k with sched := (k.sched.enter .interruptHandler).userToSystem } c past
    refine ⟨a, Sched.Threads.same ?_ (Sched.same_leave _), ?_⟩
    · rw [hs]
      exact h₁
    · show Outcome a k.mm (.key c past) a (keyboardRoutine c past _).mm
      rw [hm]
      exact Outcome.key c past
  | load addr =>
    simp only [perform] at hperf
    split_ifs at hperf with hload
    obtain rfl := Option.some_inj.mp hperf
    exact ⟨a, h, Outcome.load addr (h.cr3_eq ▸ hload)⟩
  | store addr b =>
    simp only [perform] at hperf
    split_ifs at hperf with hcan
    · obtain ⟨loc, -, hloc, hframe, rfl⟩ := userStore_eq_some hperf hmm
      rw [h.cr3_eq] at hcan hloc
      exact ⟨a, h, Outcome.store addr b loc hcan hloc hframe⟩
    · obtain ⟨k₁, hfault, hstore⟩ := Option.bind_eq_some_iff.mp hperf
      obtain ⟨loc, hcan₁, hloc, hframe, rfl⟩ := userStore_eq_some hstore hmm
      obtain ⟨h₁, hf⟩ := pagefault_eq_some h hfault hmm
      rw [h.cr3_eq, Bool.not_eq_true] at hcan
      rw [h₁.cr3_eq] at hcan₁ hloc
      exact ⟨a, h₁, Outcome.storeFault addr b k₁.mm loc hcan hf hcan₁ hloc hframe⟩
  | fault cr2 =>
    simp only [perform] at hperf
    split_ifs at hperf with hcan
    obtain ⟨h₁, hf⟩ := pagefault_eq_some h hperf hmm
    rw [h.cr3_eq, Bool.not_eq_true] at hcan
    exact ⟨a, h₁, Outcome.fault cr2 _ hcan hf⟩
  | fork ebp =>
    obtain rfl := Option.some_inj.mp hperf
    rw [systemCall_mm]
    cases hfree : a.free with
    | nil =>
      have hres := sysFork_none hentry hfree ebp
      refine ⟨a, threads_systemCall (by rw [hres]; exact hentry), ?_⟩
      rw [hres]
      exact Outcome.forkNone ebp hfree
    | cons c cs =>
      rcases Nat.lt_or_ge (freeFrames k.mm.physMem).length numPagData with hlen | hlen
      · obtain ⟨s', hres, hth, -⟩ := sysFork_fail hentry hfree hlen ebp
        rw [entered_mm] at hres
        refine ⟨_, threads_systemCall (by rw [hres]; exact hth), ?_⟩
        rw [hres]
        exact Outcome.forkFail ebp c cs hfree hlen
      · obtain ⟨s', hres, hth, -⟩ := sysFork_ok hentry hfree (hen rfl) hlen ebp
        rw [entered_mm] at hres
        refine ⟨_, threads_systemCall (by rw [hres]; exact hth), ?_⟩
        rw [hres]
        dsimp only
        exact Outcome.forkOk ebp c cs hfree (hen rfl) hlen
  | exit ebp =>
    obtain rfl := Option.some_inj.mp hperf
    obtain ⟨s', hres, hth, -⟩ := sysExit_spec hentry (hen rfl) ebp
    rw [entered_mm] at hres
    rw [systemCall_mm]
    refine ⟨_, threads_systemCall (by rw [hres]; exact hth), ?_⟩
    rw [hres]
    dsimp only
    exact Outcome.exit ebp (hen rfl)
  | yield ebp =>
    obtain rfl := Option.some_inj.mp hperf
    exact ⟨_, threads_systemCall (Sched.threads_forceTaskSwitch hentry ebp).1, Outcome.yield ebp⟩
  | shmat id addr =>
    obtain rfl := Option.some_inj.mp hperf
    refine ⟨a, threads_systemCall hentry, ?_⟩
    rw [systemCall_mm]
    dsimp only
    rw [hpt]
    exact Outcome.shmat id addr
  | shmdt addr =>
    obtain rfl := Option.some_inj.mp hperf
    refine ⟨a, threads_systemCall hentry, ?_⟩
    rw [systemCall_mm]
    dsimp only
    rw [hpt, hentry.cr3_eq]
    exact Outcome.shmdt addr
  | shmrm id =>
    obtain rfl := Option.some_inj.mp hperf
    exact ⟨a, threads_systemCall hentry, Outcome.shmrm id⟩
  | read b maxchars =>
    obtain rfl := Option.some_inj.mp hperf
    obtain ⟨hram, hs⟩ := ramOnly_sysRead k.entered b maxchars
    refine ⟨a, threads_systemCall (by rw [hs]; exact hentry), ?_⟩
    rw [systemCall_mm] at hmm ⊢
    rw [hram.eq hmm]
    exact Outcome.read b maxchars _
  | getStats pid st =>
    obtain rfl := Option.some_inj.mp hperf
    obtain ⟨hram, hs⟩ := ramOnly_sysGetStats k.entered pid st
    refine ⟨a, threads_systemCall (hentry.same hs), ?_⟩
    rw [systemCall_mm] at hmm ⊢
    rw [hram.eq hmm]
    exact Outcome.getStats pid st _

end Kernel

end ZeOS.Practica
