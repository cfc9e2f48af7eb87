import ZeOS.Practica.ForkPages

/-!
# What `sys_exit` does to the memory

The first loop frees the frames of the data pages and clears their entries.
The second releases the shared region: it counts the references down, and
where a count reaches zero it deletes an entry – not of the page that mapped
the segment, but of the page whose number is the segment's. So what is known
of the table afterwards is that its entries from `shmLength` on are those of
before, and that each of the first ones is either untouched or gone.
-/

namespace ZeOS.Practica

/-- `phys_mem` after a list of frames has been freed. -/
def freeAll (phys : PhysMem) (frames : List ℕ) : PhysMem := frames.foldl freeFrame phys

theorem freeFrame_apply (phys : PhysMem) (frame f : ℕ) :
    freeFrame phys frame f
      = if f = frame ∧ numPagKernel < frame ∧ frame < totalPages then 0 else phys f := by
  unfold freeFrame
  by_cases hg : numPagKernel < frame ∧ frame < totalPages
  · rw [if_pos hg, Function.update_apply]
    exact if_congr (by simp [hg]) rfl rfl
  · rw [if_neg hg, if_neg (fun h => hg h.2)]

theorem freeAll_apply (phys : PhysMem) (frames : List ℕ) (f : ℕ) :
    freeAll phys frames f
      = if f ∈ frames ∧ numPagKernel < f ∧ f < totalPages then 0 else phys f := by
  induction frames using List.reverseRecOn with
  | nil => simp [freeAll]
  | append_singleton frames g ih =>
    have hlast : freeAll phys (frames ++ [g]) = freeFrame (freeAll phys frames) g := by
      simp only [freeAll, List.foldl_append, List.foldl_cons, List.foldl_nil]
    rw [hlast, freeFrame_apply, ih]
    by_cases hfg : f = g
    · subst hfg
      by_cases hg : numPagKernel < f ∧ f < totalPages
      · rw [if_pos ⟨rfl, hg⟩, if_pos ⟨by simp, hg⟩]
      · rw [if_neg (fun h => hg h.2), if_neg (fun h => hg h.2), if_neg (fun h => hg h.2)]
    · simp [hfg]

namespace Mm

variable {m : Mm} {s : Slot}

/-! ## Data -/

/-- The first loop of `sys_exit`, over its first rounds. -/
theorem foldl_freeDataPage (n : ℕ) :
    (List.range n).foldl (freeDataPage s) m
      = { m.clearDataPages s n with
          physMem := freeAll m.physMem
            ((List.range' pagLogInitData n).map (getFrame (m.pagusrTable s))) } := by
  induction n with
  | zero =>
    refine Mm.ext rfl ?_ rfl rfl rfl
    funext t
    by_cases ht : t = s
    · subst ht
      funext p
      simp [clearDataPages]
    · simp [clearDataPages, ht]
  | succ n ih =>
    have hget : getFrame ((m.clearDataPages s n).pagusrTable s) (pagLogInitData + n)
        = getFrame (m.pagusrTable s) (pagLogInitData + n) := by
      simp only [clearDataPages, setTable_apply, if_true, getFrame]
      rw [if_neg (by omega)]
    rw [List.range_succ, List.foldl_append, ih, List.foldl_cons, List.foldl_nil]
    refine Mm.ext ?_ ?_ rfl rfl rfl
    · simp only [freeDataPage, hget, freeAll, List.range'_1_concat, List.map_append, List.map_cons,
        List.map_nil, List.foldl_append, List.foldl_cons, List.foldl_nil]
    · funext t
      by_cases ht : t = s
      · subst ht
        funext p
        simp only [freeDataPage, clearDataPages, setTable_apply, if_true, delSsPag_apply]
        by_cases hp : p = pagLogInitData + n
        · rw [if_pos hp, if_pos (by omega)]
        · rw [if_neg hp]
          by_cases hin : pagLogInitData ≤ p ∧ p < pagLogInitData + n
          · rw [if_pos hin, if_pos (by omega)]
          · rw [if_neg hin, if_neg (by omega)]
      · simp only [freeDataPage, clearDataPages, setTable_apply, if_neg ht]

/-! ## The shared region -/

/-- **The memory after some references have been dropped**: `drops i` of
segment `i`, the entries that may have been deleted among the first of the
slot's table, and nothing else. -/
structure Dropped (m m' : Mm) (s : Slot) (drops : ℕ → ℕ) : Prop where
  physMem : m'.physMem = m.physMem
  ram : m'.ram = m.ram
  stuck : m'.stuck = m.stuck
  shmMem : ∀ i, m'.shmMem i
    = if i < shmLength then
        { m.shmMem i with referencias := (m.shmMem i).referencias - drops i }
      else m.shmMem i
  other : ∀ t, t ≠ s → m'.pagusrTable t = m.pagusrTable t
  high : ∀ p, shmLength ≤ p → m'.pagusrTable s p = m.pagusrTable s p
  low : ∀ p, m'.pagusrTable s p = m.pagusrTable s p
    ∨ m'.pagusrTable s p = PageTableEntry.zero

theorem Dropped.refl (m : Mm) (s : Slot) : Dropped m m s (fun _ => 0) := by
  refine ⟨rfl, rfl, rfl, fun i => ?_, fun _ _ => rfl, fun _ _ => rfl, fun _ => Or.inl rfl⟩
  simp

theorem Dropped.trans {m₁ m₂ m₃ : Mm} {d e : ℕ → ℕ} (h₁ : Dropped m₁ m₂ s d)
    (h₂ : Dropped m₂ m₃ s e) : Dropped m₁ m₃ s (fun i => d i + e i) := by
  refine ⟨h₂.physMem.trans h₁.physMem, h₂.ram.trans h₁.ram, h₂.stuck.trans h₁.stuck,
    fun i => ?_, fun t ht => (h₂.other t ht).trans (h₁.other t ht),
    fun p hp => (h₂.high p hp).trans (h₁.high p hp), fun p => ?_⟩
  · rw [h₂.shmMem, h₁.shmMem]
    by_cases hi : i < shmLength
    · simp only [if_pos hi]
      rw [Int.sub_sub]
      rfl
    · simp only [if_neg hi]
  · rcases h₂.low p with h | h
    · rcases h₁.low p with h' | h'
      · exact Or.inl (h.trans h')
      · exact Or.inr (h.trans h')
    · exact Or.inr h

/-- One round of the inner loop drops a reference of a matching segment. -/
theorem dropped_dropReference (frame : ℕ) {i : ℕ} (hi : i < shmLength) :
    Dropped m (dropReference s frame m i) s
      (fun j => if j = i ∧ (m.shmMem j).shmMemFrameAddr = frame then 1 else 0) := by
  unfold dropReference
  by_cases hf : (m.shmMem i).shmMemFrameAddr = frame
  · have hshm : ∀ j, Function.update m.shmMem i
        { m.shmMem i with referencias := (m.shmMem i).referencias - 1 } j
        = if j < shmLength then
            { m.shmMem j with
              referencias := (m.shmMem j).referencias
                - ((if j = i ∧ (m.shmMem j).shmMemFrameAddr = frame then 1 else 0 : ℕ) : ℤ) }
          else m.shmMem j := by
      intro j
      rw [Function.update_apply]
      by_cases hj : j = i
      · subst hj
        simp [hi, hf]
      · simp [hj]
    rw [if_pos hf]
    dsimp only
    split_ifs with hz
    · refine ⟨rfl, rfl, rfl, hshm, fun t ht => ?_, fun p hp => ?_, fun p => ?_⟩
      · rw [setTable_apply, if_neg ht]
      · rw [setTable_apply, if_pos rfl, delSsPag_apply, if_neg (by omega)]
      · rw [setTable_apply, if_pos rfl, delSsPag_apply]
        by_cases hp : p = i
        · rw [if_pos hp]
          exact Or.inr rfl
        · rw [if_neg hp]
          exact Or.inl rfl
    · exact ⟨rfl, rfl, rfl, hshm, fun _ _ => rfl, fun _ _ => rfl, fun _ => Or.inl rfl⟩
  · rw [if_neg hf]
    refine ⟨rfl, rfl, rfl, fun j => ?_, fun _ _ => rfl, fun _ _ => rfl, fun _ => Or.inl rfl⟩
    by_cases hj : j = i
    · subst hj
      simp [hf]
    · simp [hj]

/-- The inner loop drops one reference of every segment with the frame. -/
theorem dropped_foldl_dropReference (frame : ℕ) {n : ℕ} (hn : n ≤ shmLength) :
    Dropped m ((List.range n).foldl (dropReference s frame) m) s
      (fun j => if j < n ∧ (m.shmMem j).shmMemFrameAddr = frame then 1 else 0) := by
  induction n with
  | zero =>
    have h := Dropped.refl m s
    simpa using h
  | succ n ih =>
    have h₁ := ih (by omega)
    rw [List.range_succ, List.foldl_append, List.foldl_cons, List.foldl_nil]
    have h₂ := dropped_dropReference (m := (List.range n).foldl (dropReference s frame) m)
      (s := s) frame (i := n) (by omega)
    have haddr : ∀ j, (((List.range n).foldl (dropReference s frame) m).shmMem j).shmMemFrameAddr
        = (m.shmMem j).shmMemFrameAddr := by
      intro j
      rw [h₁.shmMem]
      split_ifs <;> rfl
    have h := h₁.trans h₂
    convert h using 2 with j
    rw [haddr]
    by_cases hf : (m.shmMem j).shmMemFrameAddr = frame
    · simp only [hf, and_true]
      split_ifs <;> omega
    · simp only [hf, and_false, if_false]

/-- The second loop of `sys_exit` drops one reference for each page that
maps a segment. -/
theorem dropped_foldl_releaseSharedPage (pages : List ℕ) (hpages : ∀ p ∈ pages, shmLength ≤ p) :
    Dropped m (pages.foldl (releaseSharedPage s) m) s
      (fun i => mapCount (m.pagusrTable s) pages (m.shmMem i).shmMemFrameAddr) := by
  induction pages using List.reverseRecOn with
  | nil =>
    have h := Dropped.refl m s
    simpa [mapCount] using h
  | append_singleton pages a ih =>
    have h₁ := ih (fun p hp => hpages p (List.mem_append_left _ hp))
    rw [List.foldl_append, List.foldl_cons, List.foldl_nil]
    set m₁ := pages.foldl (releaseSharedPage s) m with hm₁
    have hframe : getFrame (m₁.pagusrTable s) a = getFrame (m.pagusrTable s) a := by
      rw [getFrame, h₁.high a (hpages a (by simp))]
      rfl
    have haddr : ∀ j, (m₁.shmMem j).shmMemFrameAddr = (m.shmMem j).shmMemFrameAddr := by
      intro j
      rw [h₁.shmMem]
      split_ifs <;> rfl
    unfold releaseSharedPage
    simp only [hframe]
    by_cases hz : getFrame (m.pagusrTable s) a = 0
    · rw [if_neg (by simpa using hz)]
      convert h₁ using 2 with i
      simp [mapCount, hz]
    · rw [if_pos hz]
      have h₂ := dropped_foldl_dropReference (m := m₁) (s := s)
        (getFrame (m.pagusrTable s) a) (le_refl shmLength)
      have h := h₁.trans h₂
      refine ⟨h.physMem, h.ram, h.stuck, fun i => ?_, h.other, h.high, h.low⟩
      rw [h.shmMem]
      by_cases hi : i < shmLength
      · simp only [if_pos hi, haddr, mapCount, List.countP_append, List.countP_cons,
          List.countP_nil, Nat.zero_add]
        congr 3
        simp [hi, hz, eq_comm]
      · simp only [if_neg hi]

/-- No page of the shared region is a data page. -/
theorem mapCount_clearDataPages (m : Mm) (s : Slot) (f : ℕ) :
    mapCount ((m.clearDataPages s numPagData).pagusrTable s) sharedPages f
      = mapCount (m.pagusrTable s) sharedPages f := by
  refine List.countP_congr (fun p hp => ?_)
  have hge : pagLogInitShared ≤ p := (List.mem_range'_1.mp hp).1
  have hget : getFrame ((m.clearDataPages s numPagData).pagusrTable s) p
      = getFrame (m.pagusrTable s) p := by
    simp only [clearDataPages, setTable_apply, if_true, getFrame]
    rw [if_neg (fun hc => Nat.not_lt.mpr hge hc.2)]
  rw [hget]

/-- No page of the shared region has the number of a segment. -/
theorem shmLength_le_of_mem_sharedPages {p : ℕ} (hp : p ∈ sharedPages) : shmLength ≤ p :=
  le_trans (by decide) (List.mem_range'_1.mp hp).1

/-- **What `sys_exit` does to the memory.** -/
theorem exitPages_dropped (m : Mm) (s : Slot) :
    Dropped { m.clearDataPages s numPagData with
        physMem := freeAll m.physMem (dataPages.map (getFrame (m.pagusrTable s))) }
      (m.exitPages s) s
      (fun i => mapCount (m.pagusrTable s) sharedPages (m.shmMem i).shmMemFrameAddr) := by
  have h := dropped_foldl_releaseSharedPage
    (m := (List.range numPagData).foldl (freeDataPage s) m) (s := s) sharedPages
    (fun _ => shmLength_le_of_mem_sharedPages)
  rw [foldl_freeDataPage] at h
  unfold exitPages
  rw [foldl_freeDataPage]
  convert h using 2 with i
  exact (mapCount_clearDataPages m s _).symm

theorem CountsWithin.exit {b : ℤ} (h : m.CountsWithin b) (s : Slot) :
    (m.exitPages s).CountsWithin (b + 740) := by
  intro i hi
  obtain ⟨h₁, h₂⟩ := h i hi
  have hle := mapCount_sharedPages_le (m.pagusrTable s) (m.shmMem i).shmMemFrameAddr
  rw [(exitPages_dropped m s).shmMem i, if_pos hi]
  show -(b + 740) ≤ (m.shmMem i).referencias - _ ∧ (m.shmMem i).referencias - _ ≤ b + 740
  exact ⟨by omega, by omega⟩

/-- An exit leaves the tables of the others. -/
theorem exitPages_other {t : Slot} (ht : t ≠ s) :
    (m.exitPages s).pagusrTable t = m.pagusrTable t := by
  rw [(exitPages_dropped m s).other t ht]
  exact (setTable_apply m s _ t).trans (if_neg ht)

end Mm

end ZeOS.Practica
