import ZeOS.Practica.FrameAlloc
import ZeOS.Practica.Threads

/-!
# The booted state

`Machine.boot` runs the initialization code; here is what it leaves. The
scheduler follows a schedule with the idle task in slot 0, the first task in
slot 1 and the other slots free. The allocator has handed out the first
frames of its sequence: eight to the code pages of the first task, twenty to
its data pages and ten to the shared segments.
-/

namespace ZeOS.Practica

/-! ## The scheduler -/

/-- The schedule after boot. -/
def bootSchedule : Schedule where
  free := [2, 3, 4, 5, 6, 7, 8, 9]
  ready := []
  current := 1
  idle := 0
  pid := fun s => if s = 0 then 0 else if s = 1 then 1 else -1
  lastPid := 1000
  nodup_free := by decide
  nodup_ready := by decide
  disjoint := by decide
  current_notMem := by decide
  idle_notMem := by decide
  cover := by decide
  idle_alone := by decide

/-- There is one user process at boot. -/
theorem user_boot {s : Slot} : bootSchedule.User s ↔ s = 1 := by
  revert s
  decide

namespace Sched

variable {s : Sched}

/-- The loop of `init_freequeue`, over any of the slots not yet queued. -/
theorem foldl_initFreeTask {queued l : List Slot}
    (hr : s.links.IsRing .freequeue (nodes queued)) (hnd : (queued ++ l).Nodup) :
    ∃ h' : Links Node,
      l.foldl initFreeTask s = { s with
        links := h'
        task := fun t => if t ∈ l then { s.task t with pid := -1 } else s.task t }
        ∧ h'.IsRing .freequeue (nodes (queued ++ l)) := by
  induction l generalizing s queued with
  | nil => exact ⟨s.links, by simp, by simpa using hr⟩
  | cons t l ih =>
    have ht : t ∉ queued := fun hm => by
      have := List.nodup_append.mp hnd
      exact this.2.2 t hm t List.mem_cons_self rfl
    have htl : t ∉ l := by
      have := List.nodup_append.mp hnd
      exact (List.nodup_cons.mp this.2.1).1
    obtain ⟨h₁, hadd, hr₁, -⟩ := linkTail_eq
      (s := s.modifyTask t (fun c => { c with pid := -1 })) hr (by simp) ht
    have hstep : initFreeTask s t
        = { s.modifyTask t (fun c => { c with pid := -1 }) with links := h₁ } := hadd
    obtain ⟨h₂, hfold, hr₂⟩ := ih
      (s := { s.modifyTask t (fun c => { c with pid := -1 }) with links := h₁ }) hr₁
      (by simpa using hnd)
    refine ⟨h₂, ?_, by simpa using hr₂⟩
    rw [List.foldl_cons, hstep, hfold]
    simp only [modifyTask, List.mem_cons]
    congr 1
    funext u
    by_cases hu : u = t
    · subst hu
      simp [htl]
    · simp [hu]

/-- **`init_sched`** queues every slot as free. -/
theorem initSched_spec (s : Sched) :
    ∃ h' : Links Node,
      s.initSched = { s with
        links := h'
        task := fun t => { s.task t with pid := -1 } }
        ∧ h'.IsRing .freequeue (nodes (List.finRange nrTasks))
        ∧ h'.IsRing .readyqueue (nodes []) := by
  obtain ⟨h₁, hfold, hr₁⟩ := foldl_initFreeTask
    (s := { s with links := initListHead s.links .freequeue }) (l := List.finRange nrTasks)
    (show Links.IsRing _ Node.freequeue (nodes []) from isRing_initListHead s.links .freequeue)
    (List.nodup_finRange nrTasks)
  refine ⟨initListHead h₁ .readyqueue, ?_, ?_, isRing_initListHead h₁ .readyqueue⟩
  · unfold initSched initFreequeue
    simp only [hfold, List.mem_finRange, if_true]
  · refine hr₁.congr (fun y hy => initListHead_of_ne h₁ ?_)
    rintro rfl
    simp at hy

/-- The first free slot, with nobody ready. -/
theorem unlink_first {c : Slot} {cs : List Slot}
    (hf : s.links.IsRing .freequeue (nodes (c :: cs)))
    (hr : s.links.IsRing .readyqueue (nodes [])) :
    ∃ h' : Links Node, s.unlink (.task c) = { s with links := h' }
      ∧ listFirst s.links .freequeue = some (.task c)
      ∧ h'.IsRing .freequeue (nodes cs) ∧ h'.IsRing .readyqueue (nodes []) := by
  obtain ⟨h', hdel, hf', hframe⟩ := unlink_eq hf
  have hr' : h'.IsRing .readyqueue (nodes []) :=
    ring_frame hr (by simp) (by simp) (by simp) (List.not_mem_nil (a := c)) (by simp)
      (fun y _ hy => hframe y hy)
  exact ⟨h', hdel, hf.next_head, hf', hr'⟩

/-- `init_idle` takes the first free slot. -/
theorem initIdle_spec {c : Slot} {cs : List Slot} (taskArray : DWord)
    (hf : s.links.IsRing .freequeue (nodes (c :: cs)))
    (hr : s.links.IsRing .readyqueue (nodes [])) :
    ∃ h' : Links Node,
      Same { s with
        links := h'
        idleTask := c
        task := fun t =>
          if t = c then { s.task t with pid := 0, dirPagesBaseAddr := c } else s.task t }
        (s.initIdle taskArray)
        ∧ h'.IsRing .freequeue (nodes cs) ∧ h'.IsRing .readyqueue (nodes []) := by
  obtain ⟨h', hdel, hfirst, hf', hr'⟩ := unlink_first hf hr
  refine ⟨h', ?_, hf', hr'⟩
  unfold initIdle
  rw [hfirst]
  simp only [hdel]
  refine ⟨rfl, rfl, rfl, rfl, rfl, rfl, rfl, fun u => ?_⟩
  by_cases hu : u = c
  · simp [initStats, modifyTask, getTicks, allocateDir, getPt, hu]
  · simp [initStats, modifyTask, getTicks, allocateDir, getPt, hu]

/-- `init_task1` takes the first free slot and makes it the current one. -/
theorem initTask1_spec {c : Slot} {cs : List Slot}
    (hf : s.links.IsRing .freequeue (nodes (c :: cs)))
    (hr : s.links.IsRing .readyqueue (nodes [])) :
    ∃ h' : Links Node,
      Same { s with
        links := h'
        current := c
        cr3 := c
        task := fun t =>
          if t = c then { s.task t with pid := 1, dirPagesBaseAddr := c, state := .run }
          else s.task t }
        s.initTask1
        ∧ h'.IsRing .freequeue (nodes cs) ∧ h'.IsRing .readyqueue (nodes []) := by
  obtain ⟨h', hdel, hfirst, hf', hr'⟩ := unlink_first hf hr
  refine ⟨h', ?_, hf', hr'⟩
  unfold initTask1
  rw [hfirst]
  simp only [hdel]
  refine ⟨rfl, rfl, rfl, rfl, ?_, rfl, rfl, fun u => ?_⟩
  · simp [initStats, modifyTask, getTicks, allocateDir, getDir, setCr3]
  · by_cases hu : u = c
    · simp [initStats, modifyTask, getTicks, allocateDir, getPt, setCr3, hu]
    · simp [initStats, modifyTask, getTicks, allocateDir, getPt, setCr3, hu]

/-- **The scheduler of the booted machine follows `bootSchedule`.** -/
theorem threads_boot (M : Machine) :
    Threads M.boot.sched bootSchedule ∧ M.boot.sched.stuck = false := by
  set s₀ : Sched := (M.loadedSched.allocateDir 0).setCr3 0 with hs₀
  have hboot : M.boot.sched = (s₀.initSched.initIdle M.taskArray).initTask1 := rfl
  obtain ⟨h₁, hinit, hf₁, hr₁⟩ := initSched_spec s₀
  have hfin : List.finRange nrTasks = [0, 1, 2, 3, 4, 5, 6, 7, 8, 9] := rfl
  rw [hfin] at hf₁
  rw [hboot, hinit]
  obtain ⟨h₂, hs₂, hf₂, hr₂⟩ := initIdle_spec
    (s := { s₀ with links := h₁, task := fun t => { s₀.task t with pid := -1 } })
    M.taskArray hf₁ hr₁
  set s₂ := Sched.initIdle M.taskArray
    { s₀ with links := h₁, task := fun t => { s₀.task t with pid := -1 } }
  have hlinks₂ : s₂.links = h₂ := hs₂.links
  rw [← hlinks₂] at hf₂ hr₂
  obtain ⟨h₃, hs₃, hf₃, hr₃⟩ := initTask1_spec hf₂ hr₂
  have htask₂ : ∀ t, (s₂.task t).pid = (if t = 0 then 0 else -1)
      ∧ (s₂.task t).state = .run ∧ s₂.getPt t = 0 := by
    intro t
    obtain ⟨hp, hst, hd⟩ := hs₂.task t
    rw [hp, hst, hd]
    by_cases ht : t = 0
    · subst ht
      exact ⟨rfl, rfl, rfl⟩
    · have h0 : (s₀.task t).state = .run ∧ (s₀.task t).dirPagesBaseAddr = 0 := by
        simp [hs₀, setCr3, allocateDir, modifyTask, Machine.loadedSched, Machine.bss]
      simp only [getPt, if_neg ht]
      exact ⟨trivial, h0⟩
  refine ⟨Threads.same ?_ hs₃, hs₃.stuck.trans hs₂.stuck⟩
  refine ⟨hf₃, hr₃, rfl, hs₂.idleTask, fun t => ?_, hs₂.globalPid, by simp [bootSchedule], rfl,
    fun t ht => ?_, rfl, hs₂.unlinkedDel⟩
  · show (if t = 1 then _ else s₂.task t : TaskStruct).pid
      = if t = 0 then 0 else if t = 1 then 1 else -1
    by_cases ht : t = 1
    · subst ht
      rfl
    · rw [if_neg ht, (htask₂ t).1, if_neg ht]
  · have ht01 : t = 0 ∨ t = 1 := by
      revert ht
      revert t
      decide
    rcases ht01 with rfl | rfl
    · exact (htask₂ 0).2.2
    · rfl

end Sched

/-! ## The memory -/

/-- The byte map once the first `n` frames of the sequence are handed out. -/
def bootPhys (n : ℕ) : PhysMem := markUsed initFrames (frameScan.take n)

theorem freeFrames_initFrames : freeFrames initFrames = frameScan := by
  refine List.filter_eq_self.mpr (fun f hf => ?_)
  have hge : ¬ f < numPagKernel := Nat.not_lt.mpr (mem_frameScan.mp hf).1
  simp [initFrames, hge]

theorem freeFrames_bootPhys (n : ℕ) : freeFrames (bootPhys n) = frameScan.drop n := by
  have h := freeFrames_markUsed_take initFrames n
  rwa [freeFrames_initFrames] at h

/-- The frames of the sequence are every second one from `NUM_PAG_KERNEL`
on. -/
theorem mem_take_frameScan {n f : ℕ} (hn : n ≤ 384) :
    f ∈ frameScan.take n ↔ numPagKernel ≤ f ∧ f < numPagKernel + 2 * n ∧ f % 2 = 0 := by
  have htake : frameScan.take n = List.range' numPagKernel n 2 :=
    List.take_range'_of_length_ge hn
  rw [htake]
  simp only [List.mem_range', numPagKernel]
  constructor
  · rintro ⟨i, hi, rfl⟩
    omega
  · rintro ⟨h₁, h₂, h₃⟩
    exact ⟨(f - 256) / 2, by omega, by omega⟩

theorem bootPhys_apply {n : ℕ} (hn : n ≤ 384) (f : ℕ) :
    bootPhys n f
      = if f < numPagKernel ∨ f < numPagKernel + 2 * n ∧ f % 2 = 0 then 1 else 0 := by
  simp only [bootPhys, markUsed, mem_take_frameScan hn, initFrames, usedFrameMark,
    freeFrameMark]
  split_ifs <;> omega

/-- The next allocation of the boot sequence. -/
theorem allocFrame_bootPhys {n : ℕ} (hn : n < 384) :
    allocFrame (bootPhys n) = (((numPagKernel + 2 * n : ℕ) : ℤ), bootPhys (n + 1)) := by
  have hdrop : freeFrames (bootPhys n)
      = (numPagKernel + 2 * n) :: frameScan.drop (n + 1) := by
    have hlen : n < frameScan.length := by
      rw [frameScan, List.length_range']
      exact hn
    rw [freeFrames_bootPhys, List.drop_eq_getElem_cons hlen]
    congr 1
    simp [frameScan]
  rw [allocFrame_of_cons hdrop]
  refine Prod.ext rfl (funext fun f => ?_)
  show Function.update (bootPhys n) (numPagKernel + 2 * n) 1 f = bootPhys (n + 1) f
  rw [Function.update_apply, bootPhys_apply hn, bootPhys_apply hn.le]
  simp only [numPagKernel]
  split_ifs <;> omega

namespace Mm

/-- A run of pages of one slot mapped to consecutive frames of the
sequence, from its `k`-th frame on. -/
def withRun (m : Mm) (s : Slot) (first : ℕ) (rw : Bool) (k n : ℕ) : Mm :=
  { m.setTable s (fun p =>
      if first ≤ p ∧ p < first + n then
        ⟨true, rw, true, BitVec.ofNat 20 (numPagKernel + 2 * (k + (p - first)))⟩
      else m.pagusrTable s p) with
    physMem := bootPhys (k + n) }

/-- Either loop of `set_user_pages`. -/
theorem foldl_setUserPage {m : Mm} (s : Slot) (first : ℕ) (rw : Bool) {k n : ℕ}
    (hphys : m.physMem = bootPhys k) (hn : k + n ≤ 384) :
    (List.range n).foldl (setUserPage first rw s) m = m.withRun s first rw k n := by
  induction n with
  | zero =>
    refine Mm.ext hphys ?_ rfl rfl rfl
    funext t
    by_cases ht : t = s
    · subst ht
      funext p
      simp [withRun]
    · simp [withRun, ht]
  | succ n ih =>
    have halloc : allocFrame (m.withRun s first rw k n).physMem
        = (((numPagKernel + 2 * (k + n) : ℕ) : ℤ), bootPhys (k + (n + 1))) :=
      allocFrame_bootPhys (by omega)
    rw [List.range_succ, List.foldl_append, ih (by omega), List.foldl_cons, List.foldl_nil,
      setUserPage]
    simp only [halloc]
    refine Mm.ext rfl ?_ rfl rfl rfl
    funext t
    by_cases ht : t = s
    · subst ht
      funext p
      simp only [withRun, setTable_apply, if_true, Function.update_apply]
      by_cases hp : p = first + n
      · subst hp
        rw [if_pos rfl, if_pos ⟨by omega, by omega⟩, Nat.add_sub_cancel_left, BitVec.ofInt_natCast]
      · rw [if_neg hp]
        by_cases hin : first ≤ p ∧ p < first + n
        · rw [if_pos hin, if_pos ⟨hin.1, by omega⟩]
        · rw [if_neg hin, if_neg (by omega)]
    · simp [withRun, ht]

/-- The loop of `init_shared_memory`. -/
theorem foldl_initSharedSegment {m : Mm} {k n : ℕ} (hphys : m.physMem = bootPhys k)
    (hn : k + n ≤ 384) :
    (List.range n).foldl initSharedSegment m
      = { m with
          physMem := bootPhys (k + n)
          shmMem := fun i =>
            if i < n then
              { m.shmMem i with shmMemFrameAddr := numPagKernel + 2 * (k + i), referencias := 0 }
            else m.shmMem i } := by
  induction n with
  | zero => exact Mm.ext hphys rfl (by simp) rfl rfl
  | succ n ih =>
    have halloc := allocFrame_bootPhys (n := k + n) (by omega)
    have hne : ((numPagKernel + 2 * (k + n) : ℕ) : ℤ) ≠ -1 := by omega
    rw [List.range_succ, List.foldl_append, ih (by omega), List.foldl_cons, List.foldl_nil,
      initSharedSegment]
    simp only [halloc, if_neg hne, Int.toNat_natCast]
    refine Mm.ext rfl rfl ?_ rfl rfl
    funext i
    simp only [Function.update_apply, Nat.lt_irrefl, if_false]
    by_cases hi : i = n
    · subst hi
      rw [if_pos rfl, if_pos (by omega)]
    · rw [if_neg hi]
      exact if_congr (by omega) rfl rfl

end Mm

/-- The table of the first task. -/
def bootTable (M : Machine) : PageTable := fun p =>
  if pagLogInitCode ≤ p ∧ p < pagLogInitShared then
    ⟨true, decide (pagLogInitData ≤ p), true,
      BitVec.ofNat 20 (numPagKernel + 2 * (p - pagLogInitCode))⟩
  else initTablePages M.tasksPage p

/-- **The memory of the booted machine.** -/
theorem boot_mm (M : Machine) :
    M.boot.mm =
      { physMem := bootPhys 38
        pagusrTable := fun t => if t = 1 then bootTable M else initTablePages M.tasksPage
        shmMem := fun i => if i < shmLength then ⟨312 + 2 * i, 0, false⟩ else ⟨0, 0, false⟩
        ram := M.ram
        stuck := false } := by
  have hslot : M.bootSched.getPt M.bootSched.current = 1 := by
    have h : Sched.Threads M.bootSched bootSchedule := (Sched.threads_boot M).1
    rw [h.current_eq]
    exact h.dir_eq 1 (by decide)
  have hphys : M.loadedMm.physMem = bootPhys 0 := by simp [bootPhys, Machine.loadedMm]
  rw [Machine.boot, Machine.bootMm, hslot, Mm.initSharedMemory, Mm.setUserPages]
  have hcode := Mm.foldl_setUserPage 1 pagLogInitCode false hphys (n := numPagCode) (by decide)
  have hdata := Mm.foldl_setUserPage (m := M.loadedMm.withRun 1 pagLogInitCode false 0 numPagCode)
    1 pagLogInitData true (k := numPagCode) (n := numPagData) rfl (by decide)
  have hcodeEq : Mm.setUserCodePage 1 = Mm.setUserPage pagLogInitCode false 1 := rfl
  have hdataEq : Mm.setUserDataPage 1 = Mm.setUserPage pagLogInitData true 1 := rfl
  simp only [hcodeEq, hdataEq, hcode, hdata]
  rw [Mm.foldl_initSharedSegment (k := 28) (n := shmLength) rfl (by decide)]
  refine Mm.ext rfl ?_ ?_ rfl rfl
  · funext t
    by_cases ht : t = 1
    · subst ht
      funext p
      simp only [Mm.withRun, Mm.setTable_apply, if_true, bootTable, Machine.loadedMm,
        pagLogInitCode, pagLogInitData, pagLogInitShared, numPagCode, numPagData, numPagKernel]
      by_cases hd : 256 + 8 ≤ p ∧ p < 256 + 8 + 20
      · rw [if_pos hd, if_pos (by omega), decide_eq_true hd.1,
          show 8 + (p - (256 + 8)) = p - 256 by omega]
      · rw [if_neg hd]
        by_cases hc : 256 ≤ p ∧ p < 256 + 8
        · rw [if_pos hc, if_pos (by omega), decide_eq_false (by omega), Nat.zero_add]
        · rw [if_neg hc, if_neg (by omega)]
    · simp only [Mm.withRun, Mm.setTable_apply, if_neg ht, Machine.loadedMm]
  · funext i
    by_cases hi : i < shmLength
    · simp only [if_pos hi]
      rw [show numPagKernel + 2 * (28 + i) = 312 + 2 * i by simp only [numPagKernel]; omega]
      rfl
    · simp only [if_neg hi]
      rfl

end ZeOS.Practica
