import ZeOS.Practica.Tables

/-!
# Running out of frames

A fork takes the frames of its data pages and then shares the parent's, and
an exit gives back those that are mapped. As long as nobody writes, all
processes map the frames of the first task, so every exit gives the same
twenty frames back, and forks and exits use up the memory.
-/

namespace ZeOS.Practica

/-- **Every fork that finds a free slot finds the frames it needs.** -/
def FindsFrames (k : Kernel) : Event → Prop
  | .fork _ => k.freeSlots = [] ∨ numPagData ≤ (freeFrames k.mm.physMem).length
  | _ => True

/-- The frames of the first task's data pages. -/
abbrev firstDataFrames : List ℕ := List.range' 272 20 2

theorem dataPages_map_codeFrame : dataPages.map codeFrame = firstDataFrames := by decide

/-- The frames of the code are in use. -/
theorem Mapped.code_used {M : Machine} {a : Schedule} {m : Mm} (h : Mapped M a m) :
    ∀ g ∈ List.range' 256 8 2, m.physMem g ≠ 0 := by
  intro g hg
  have hfix : Fixed g := by
    simp only [List.mem_range'] at hg
    obtain ⟨i, hi, rfl⟩ := hg
    refine Or.inr (Or.inl ⟨256 + i, by simp, ?_, ?_⟩)
    · show 256 + i < 264
      omega
    · unfold codeFrame
      omega
  rw [h.fixed_used g hfix]
  exact one_ne_zero

/-- The free frames, while those of the code are in use and those of the
first data pages are in one state. -/
theorem freeFrames_split {phys : PhysMem} {v : ℕ}
    (hcode : ∀ f ∈ List.range' 256 8 2, phys f ≠ 0) (hdata : ∀ f ∈ firstDataFrames, phys f = v) :
    freeFrames phys = (if v = 0 then firstDataFrames else [])
      ++ (List.range' 312 356 2).filter (fun f => decide (phys f = 0)) := by
  have hscan : frameScan = List.range' 256 8 2 ++ (firstDataFrames ++ List.range' 312 356 2) := by
    rw [List.range'_append, List.range'_append]
    rfl
  have hnil : (List.range' 256 8 2).filter (fun f => decide (phys f = freeFrameMark)) = [] :=
    List.filter_eq_nil_iff.mpr (fun f hf => by simpa [freeFrameMark] using hcode f hf)
  rw [freeFrames, hscan, List.filter_append, List.filter_append, hnil, List.nil_append]
  congr 1
  split_ifs with hv
  · exact List.filter_eq_self.mpr (fun f hf => by simpa [freeFrameMark] using (hdata f hf).trans hv)
  · exact List.filter_eq_nil_iff.mpr (fun f hf => by simpa [freeFrameMark, hdata f hf] using hv)

/-- Counting up frames in use frees none. -/
theorem freeFrames_addCounts {phys : PhysMem} {frames : List ℕ} (hnd : frames.Nodup)
    (hused : ∀ f ∈ frames, phys f ≠ 0 ∧ phys f < 255) :
    freeFrames (addCounts phys frames) = freeFrames phys := by
  refine List.filter_congr (fun f _ => ?_)
  by_cases hf : f ∈ frames
  · obtain ⟨h₁, h₂⟩ := hused f hf
    rw [addCounts_of_mem hnd hf, decide_eq_decide]
    simp only [freeFrameMark]
    omega
  · rw [addCounts_of_notMem hf]

/-- **A state reached by forks and exits alone**: `u` forks so far, `f` free
slots, `r` ready tasks, `t` free frames, and count `v` on the frames all
processes share. -/
structure Drained (M : Machine) (k : Kernel) (a : Schedule) (u f r t v : ℕ) : Prop where
  follows : k.Follows a
  mapped : Mapped M a k.mm
  frames : ∀ s, a.User s → ∀ p, pagLogInitData ≤ p → p < pagLogInitShared →
    getFrame (k.mm.pagusrTable s) p = codeFrame p
  count : ∀ g ∈ firstDataFrames, k.mm.physMem g = v
  count_le : v ≤ u + 1
  total : (freeFrames k.mm.physMem).length = t
  last : a.lastPid = 1000 + u
  free : a.free.length = f
  ready : a.ready.length = r
  busy : a.current ≠ a.idle
  /-- A fork and an exit change a count by at most 740. -/
  counts : k.mm.CountsWithin (2 ^ 20 * (u + 1) - 1000 * r)

namespace Drained

variable {M : Machine} {k : Kernel} {a : Schedule} {u f r t v : ℕ}

theorem boot (M : Machine) : Drained M M.boot bootSchedule 0 8 0 346 1 where
  follows := follows_boot M
  mapped := Mapped.boot M
  frames s hs p h₁ h₂ := by
    have h1 : s = 1 := user_boot.mp hs
    rw [boot_mm]
    dsimp only
    rw [if_pos h1]
    exact Mapped.bootTable_frame M (le_trans (by decide) h₁) h₂
  count g hg := by
    have hphys : M.boot.mm.physMem = bootPhys 38 := by rw [boot_mm]
    simp only [List.mem_range'] at hg
    rw [hphys, bootPhys_apply (by decide), if_pos]
    simp only [numPagKernel]
    omega
  count_le := le_rfl
  total := by
    have hphys : M.boot.mm.physMem = bootPhys 38 := by rw [boot_mm]
    rw [hphys, freeFrames_bootPhys, List.length_drop, frameScan, List.length_range']
    rfl
  last := rfl
  free := rfl
  ready := rfl
  busy := by decide
  counts := (countsWithin_boot M).mono (by decide)

theorem code_used (h : Drained M k a u f r t v) :
    ∀ g ∈ List.range' 256 8 2, k.mm.physMem g ≠ 0 := h.mapped.code_used

/-- The frames an exit frees, and a fork counts. -/
theorem map_getFrame (h : Drained M k a u f r t v) :
    dataPages.map (getFrame (k.mm.pagusrTable a.current)) = firstDataFrames := by
  rw [← dataPages_map_codeFrame]
  refine List.map_congr_left (fun p hp => ?_)
  rw [List.mem_range'_1] at hp
  exact h.frames a.current (a.user_current h.busy) p hp.1 hp.2

/-- **A fork** takes twenty frames. -/
theorem spawn (h : Drained M k a u (f + 1) r t v) (ht : numPagData ≤ t) (hu : u ≤ 200)
    {c : Slot} {cs : List Slot} (hfree : a.free = c :: cs) :
    ∃ k', FindsFrames k (.fork 0) ∧ k.step (.fork 0) = some k'
      ∧ Drained M k' (a.spawn c cs hfree h.busy) (u + 1) f (r + 1) (t - numPagData)
          (max v 1 + 1) := by
  have hlen : numPagData ≤ (freeFrames k.mm.physMem).length := h.total ▸ ht
  have hcc : a.current ≠ c := fun he => a.current_notMem.1 (hfree ▸ he ▸ List.mem_cons_self)
  have hmm := Mm.forkPages_withFrames k.mm hcc
  rw [h.map_getFrame] at hmm
  have hdown : ((k.mm.withFrames c numPagData).forkPages a.current c).stuck = false := by
    rw [hmm]
    dsimp only
    rw [h.follows.mm_down, Bool.false_or, List.any_eq_false]
    intro p hp
    have hg : getFrame (k.mm.pagusrTable a.current) p ∈ firstDataFrames :=
      h.map_getFrame ▸ List.mem_map_of_mem hp
    simp only [List.mem_range'] at hg
    rw [decide_eq_true_iff, Nat.not_le]
    simp only [totalPages]
    omega
  have hlast := h.last
  obtain ⟨k', hst, hf, hk', -⟩ :=
    Kernel.exists_fork h.follows hfree h.busy hlen (by omega) hdown
      ((h.counts.fork hcc).fit (by omega)) 0
  refine ⟨k', Or.inr hlen, hst, ?_⟩
  have hsplit := freeFrames_split h.code_used h.count
  -- the counts before the fork raises them
  have hmark : ∀ g ∈ firstDataFrames,
      markUsed k.mm.physMem ((freeFrames k.mm.physMem).take numPagData) g = max v 1 := by
    intro g hg
    rw [markUsed]
    by_cases hv : v = 0
    · rw [if_pos, hv]
      · rfl
      · rw [hsplit, if_pos hv, List.take_left' (by simp)]
        exact hg
    · rw [if_neg, h.count g hg]
      · omega
      · intro hm
        have h0 := (mem_freeFrames.mp (List.mem_of_mem_take hm)).2
        rw [h.count g hg] at h0
        exact hv h0
  have hnd : firstDataFrames.Nodup := List.nodup_range' 2
  have hle := h.count_le
  have hphys : k'.mm.physMem = addCounts
      (markUsed k.mm.physMem ((freeFrames k.mm.physMem).take numPagData)) firstDataFrames := by
    rw [hk', hmm]
  refine ⟨hf, ?_, fun s hs p h₁ h₂ => ?_, fun g hg => ?_, by omega, ?_, ?_, ?_, ?_, h.busy,
    hk' ▸ (h.counts.fork hcc).mono (by push_cast; omega)⟩
  · rw [hk']
    exact h.mapped.forkOk hfree h.busy
  · rw [hk', hmm]
    dsimp only
    have hcur := h.frames a.current (a.user_current h.busy) p h₁ h₂
    by_cases hsc : s = c
    · rw [if_pos hsc, getFrame, Mm.childTable, if_neg (Nat.not_lt.mpr h₁), if_pos h₂]
      exact hcur
    rw [if_neg hsc]
    by_cases hsa : s = a.current
    · rw [if_pos hsa, getFrame, Mm.parentTable, if_pos ⟨h₁, h₂⟩]
      exact hcur
    · rw [if_neg hsa]
      exact h.frames s (((Schedule.user_spawn hfree h.busy).mp hs).resolve_right hsc) p h₁ h₂
  · rw [hphys, addCounts_of_mem hnd hg, hmark g hg]
    omega
  · rw [hphys, freeFrames_addCounts hnd, freeFrames_markUsed_take, List.length_drop, h.total]
    intro g hg
    rw [hmark g hg]
    omega
  · show a.lastPid + 1 = _
    rw [hlast]
    push_cast
    omega
  · have hl := h.free
    rw [hfree] at hl
    exact Nat.succ_injective hl
  · show (a.ready ++ [c]).length = _
    rw [List.length_append, h.ready]
    rfl

theorem fork (h : Drained M k a u (f + 1) r t v) (ht : numPagData ≤ t) (hu : u ≤ 200) :
    ∃ k' a', FindsFrames k (.fork 0) ∧ k.step (.fork 0) = some k'
      ∧ Drained M k' a' (u + 1) f (r + 1) (t - numPagData) (max v 1 + 1) := by
  obtain ⟨c, cs, hfree⟩ : ∃ c cs, a.free = c :: cs :=
    List.exists_cons_of_length_pos (by rw [h.free]; exact Nat.succ_pos f)
  obtain ⟨k', hP, hst, h'⟩ := h.spawn ht hu hfree
  exact ⟨k', _, hP, hst, h'⟩

/-- **An exit** gives the shared frames back, if nobody has done so yet. -/
theorem retire (h : Drained M k a u f (r + 1) t v) (hu : u ≤ 200) :
    ∃ k', k.step (.exit 0) = some k'
      ∧ Drained M k' (a.retire h.busy) u (f + 1) r (if v = 0 then t else t + numPagData) 0 := by
  have hd := Mm.exitPages_dropped k.mm a.current
  rw [h.map_getFrame] at hd
  obtain ⟨k', hst, hf, hk', -⟩ := Kernel.exists_exit h.follows h.busy
    (hd.stuck.trans h.follows.mm_down) ((h.counts.exit a.current).fit (by omega)) 0
  obtain ⟨c, cs, hready⟩ : ∃ c cs, a.ready = c :: cs :=
    List.exists_cons_of_length_pos (by rw [h.ready]; exact Nat.succ_pos r)
  refine ⟨k', hst, ?_⟩
  have hphys : k'.mm.physMem = freeAll k.mm.physMem firstDataFrames := by
    rw [hk']
    exact hd.physMem
  have hbounds : ∀ g ∈ firstDataFrames, numPagKernel < g ∧ g < totalPages := by
    intro g hg
    simp only [List.mem_range'] at hg
    simp only [numPagKernel, totalPages]
    omega
  have hzero : ∀ g ∈ firstDataFrames, k'.mm.physMem g = 0 := by
    intro g hg
    rw [hphys, freeAll_apply, if_pos ⟨hg, hbounds g hg⟩]
  have hother : ∀ g ∉ firstDataFrames, k'.mm.physMem g = k.mm.physMem g := by
    intro g hg
    rw [hphys, freeAll_apply, if_neg (fun hc => hg hc.1)]
  have hm' : Mapped M (a.retire h.busy) k'.mm := hk' ▸ h.mapped.exit h.busy
  refine ⟨hf, hm', fun s hs p h₁ h₂ => ?_, hzero, Nat.zero_le _, ?_, h.last, ?_, ?_, ?_,
    hk' ▸ (h.counts.exit a.current).mono (by push_cast; omega)⟩
  · obtain ⟨hs, hne⟩ := (Schedule.user_retire h.busy).mp hs
    rw [hk', Mm.exitPages_other hne]
    exact h.frames s hs p h₁ h₂
  · -- the frames past the first ones are as they were
    have hcode : ∀ g ∈ List.range' 256 8 2, k'.mm.physMem g ≠ 0 := by
      intro g hg
      rw [hother g]
      · exact h.code_used g hg
      · intro hc
        simp only [List.mem_range'] at hg hc
        omega
    have hrest : (List.range' 312 356 2).filter (fun g => decide (k'.mm.physMem g = 0))
        = (List.range' 312 356 2).filter (fun g => decide (k.mm.physMem g = 0)) := by
      refine List.filter_congr (fun g hg => ?_)
      rw [hother g]
      intro hc
      simp only [List.mem_range'] at hg hc
      omega
    have htotal := h.total
    rw [freeFrames_split h.code_used h.count, List.length_append] at htotal
    rw [freeFrames_split hcode hzero, hrest, if_pos rfl, List.length_append]
    split_ifs at htotal ⊢ with hv
    · exact htotal
    · rw [List.length_nil, Nat.zero_add] at htotal
      rw [htotal, Nat.add_comm, List.length_range']
  · show (a.free ++ [a.current]).length = _
    rw [List.length_append, h.free]
    rfl
  · show a.ready.tail.length = r
    rw [List.length_tail, h.ready]
    rfl
  · show a.ready.headD a.idle ≠ a.idle
    rw [hready]
    intro hc
    have hidle := a.idle_notMem.2
    rw [hready] at hidle
    exact hidle (hc ▸ List.mem_cons_self)

theorem exit (h : Drained M k a u f (r + 1) t v) (hu : u ≤ 200) :
    ∃ k' a', k.step (.exit 0) = some k'
      ∧ Drained M k' a' u (f + 1) r (if v = 0 then t else t + numPagData) 0 := by
  obtain ⟨k', hst, h'⟩ := h.retire hu
  exact ⟨k', _, hst, h'⟩

/-- **Forks in a row.** -/
theorem forks (n : ℕ) (h : Drained M k a u (f + n) r t v) (ht : numPagData * n ≤ t)
    (hu : u + n ≤ 200) :
    ∃ k' a' v', Run Kernel.step FindsFrames k (List.replicate n (.fork 0)) k'
      ∧ Drained M k' a' (u + n) f (r + n) (t - numPagData * n) v' ∧ (0 < n → v' ≠ 0) := by
  induction n generalizing f with
  | zero => exact ⟨k, a, v, Run.nil k, h, fun hn => absurd hn (lt_irrefl 0)⟩
  | succ n ih =>
    rw [Nat.mul_succ] at ht
    obtain ⟨k₁, a₁, v₁, hrun, h₁, -⟩ := ih (f := f + 1)
      (by rwa [Nat.add_assoc, Nat.add_comm 1 n]) (by omega) (by omega)
    obtain ⟨k₂, a₂, hP, hst, h₂⟩ := h₁.fork (by omega) (by omega)
    refine ⟨k₂, a₂, max v₁ 1 + 1, ?_, ?_, fun _ => Nat.succ_ne_zero _⟩
    · rw [List.replicate_succ']
      exact Run.snoc hrun hP hst
    · rw [Nat.mul_succ, ← Nat.sub_sub]
      exact h₂

/-- **Exits in a row.** -/
theorem exits (n : ℕ) (h : Drained M k a u f (r + n) t v) (hu : u ≤ 200) :
    ∃ k' a' v', Run Kernel.step FindsFrames k (List.replicate n (.exit 0)) k'
      ∧ Drained M k' a' u (f + n) r (if v = 0 ∨ n = 0 then t else t + numPagData) v'
      ∧ (0 < n → v' = 0) ∧ (n = 0 → v' = v) := by
  induction n generalizing r with
  | zero =>
    rw [if_pos (Or.inr rfl)]
    exact ⟨k, a, v, Run.nil k, h, fun hn => absurd hn (lt_irrefl 0), fun _ => rfl⟩
  | succ n ih =>
    obtain ⟨k₁, a₁, v₁, hrun, h₁, hpos, hzero⟩ := ih (r := r + 1)
      (by rwa [Nat.add_assoc, Nat.add_comm 1 n])
    obtain ⟨k₂, a₂, hst, h₂⟩ := h₁.exit hu
    refine ⟨k₂, a₂, 0, ?_, ?_, fun _ => rfl, fun hn => absurd hn (Nat.succ_ne_zero n)⟩
    · rw [List.replicate_succ']
      exact Run.snoc hrun trivial hst
    · -- the frames are given back once
      have htotal : (if v = 0 ∨ n + 1 = 0 then t else t + numPagData)
          = if v₁ = 0 then (if v = 0 ∨ n = 0 then t else t + numPagData)
            else (if v = 0 ∨ n = 0 then t else t + numPagData) + numPagData := by
        rcases Nat.eq_zero_or_pos n with hn | hn
        · rw [hzero hn]
          simp [hn]
        · have hn' : n ≠ 0 := Nat.pos_iff_ne_zero.mp hn
          rw [hpos hn]
          simp [hn']
      rw [htotal]
      exact h₂

end Drained

/-- Eight forks, eight exits, eight forks, four exits and three forks leave
a free slot and six frames. -/
def drain : List Event :=
  List.replicate 8 (.fork 0) ++ List.replicate 8 (.exit 0) ++ List.replicate 8 (.fork 0)
    ++ List.replicate 4 (.exit 0) ++ List.replicate 3 (.fork 0)

/-- The same but for the last fork. -/
theorem exists_nearly_drained (M : Machine) :
    ∃ k a v, Run Kernel.step FindsFrames M.boot
        (List.replicate 8 (.fork 0) ++ List.replicate 8 (.exit 0) ++ List.replicate 8 (.fork 0)
          ++ List.replicate 4 (.exit 0) ++ List.replicate 2 (.fork 0)) k
      ∧ Drained M k a 18 2 6 26 v := by
  obtain ⟨k₁, a₁, v₁, hr₁, h₁, hv₁⟩ :=
    Drained.forks (f := 0) 8 (Drained.boot M) (by decide) (by decide)
  obtain ⟨k₂, a₂, v₂, hr₂, h₂, hv₂, -⟩ := Drained.exits (r := 0) 8 h₁ (by decide)
  rw [if_neg (by simp [hv₁ (by decide)])] at h₂
  obtain ⟨k₃, a₃, v₃, hr₃, h₃, hv₃⟩ := Drained.forks (f := 0) 8 h₂ (by decide) (by decide)
  obtain ⟨k₄, a₄, v₄, hr₄, h₄, -⟩ := Drained.exits (r := 4) 4 h₃ (by decide)
  rw [if_neg (by simp [hv₃ (by decide)])] at h₄
  obtain ⟨k₅, a₅, v₅, hr₅, h₅, -⟩ := Drained.forks (f := 2) 2 h₄ (by decide) (by decide)
  exact ⟨k₅, a₅, v₅, (((hr₁.append hr₂).append hr₃).append hr₄).append hr₅, h₅⟩

theorem exists_drained (M : Machine) :
    ∃ k a v, Run Kernel.step FindsFrames M.boot drain k ∧ Drained M k a 19 1 7 6 v := by
  obtain ⟨k, a, v, hrun, h⟩ := exists_nearly_drained M
  obtain ⟨k', a', hP, hst, h'⟩ := h.fork (by decide) (by decide)
  have hdrain := hrun.snoc hP hst
  rw [List.append_assoc, ← List.replicate_succ'] at hdrain
  exact ⟨k', a', _, hdrain, h'⟩

end ZeOS.Practica
