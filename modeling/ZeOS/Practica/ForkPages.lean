import ZeOS.Practica.FrameAlloc

/-!
# What `sys_fork` does to the page tables

The loops of `sys_fork` after the allocation write the child's table page by
page from the parent's, and on the way count references. Each loop is closed
over the pages it has done, and `forkPages_eq` composes them: the child has
the parent's kernel and code pages writable, the parent's data pages
read-only, and the parent's shared pages where the parent has any; what the
child's table held elsewhere stays.

The statements need the two tables to be two: the child's slot has just come
out of `freequeue`, and the running task is not in there.
-/

namespace ZeOS.Practica

/-- The entry `set_ss_pag` writes for the frame another entry has. -/
def PageTableEntry.opened (e : PageTableEntry) : PageTableEntry :=
  ⟨true, true, true, e.pbaseAddr⟩

/-- The same entry without the `rw` bit. -/
def PageTableEntry.readOnly (e : PageTableEntry) : PageTableEntry :=
  ⟨true, false, true, e.pbaseAddr⟩

/-- A frame read out of an entry and stored back is the same 20 bits. -/
theorem ofInt_getFrame (pt : PageTable) (p : ℕ) :
    BitVec.ofInt 20 (getFrame pt p : ℤ) = (pt p).pbaseAddr := by
  rw [BitVec.ofInt_natCast, getFrame, BitVec.ofNat_toNat, BitVec.setWidth_eq]

theorem setSsPag_getFrame (pt src : PageTable) (page page' p : ℕ) :
    setSsPag pt page (getFrame src page') p
      = if p = page then (src page').opened else pt p := by
  rw [setSsPag_apply, ofInt_getFrame]
  rfl

theorem setRw_apply (pt : PageTable) (page : ℕ) (b : Bool) (p : ℕ) :
    setRw pt page b p = if p = page then { pt p with rw := b } else pt p := rfl

/-- `phys_mem` after the counts of a list of frames went up by one each. -/
def addCounts (phys : PhysMem) (frames : List ℕ) : PhysMem :=
  frames.foldl (fun ph f => Function.update ph f ((ph f + 1) % 256)) phys

theorem addCounts_of_notMem {phys : PhysMem} {frames : List ℕ} {f : ℕ} (h : f ∉ frames) :
    addCounts phys frames f = phys f := by
  induction frames generalizing phys with
  | nil => rfl
  | cons g gs ih =>
    rw [addCounts, List.foldl_cons]
    rw [show gs.foldl (fun ph f => Function.update ph f ((ph f + 1) % 256))
      (Function.update phys g ((phys g + 1) % 256)) f
        = addCounts (Function.update phys g ((phys g + 1) % 256)) gs f from rfl,
      ih (fun hm => h (List.mem_cons_of_mem g hm)),
      Function.update_of_ne (fun hfg : f = g => h (hfg ▸ List.mem_cons_self))]

/-- Where no frame occurs twice, the count of each went up once. -/
theorem addCounts_of_mem {phys : PhysMem} {frames : List ℕ} {f : ℕ} (hnd : frames.Nodup)
    (h : f ∈ frames) : addCounts phys frames f = (phys f + 1) % 256 := by
  induction frames generalizing phys with
  | nil => exact absurd h List.not_mem_nil
  | cons g gs ih =>
    rw [addCounts, List.foldl_cons]
    rw [show gs.foldl (fun ph f => Function.update ph f ((ph f + 1) % 256))
      (Function.update phys g ((phys g + 1) % 256)) f
        = addCounts (Function.update phys g ((phys g + 1) % 256)) gs f from rfl]
    obtain ⟨hg, hgs⟩ := List.nodup_cons.mp hnd
    rcases List.mem_cons.mp h with rfl | hm
    · rw [addCounts_of_notMem hg, Function.update_self]
    · rw [ih hgs hm, Function.update_of_ne (fun hfg : f = g => hg (hfg ▸ hm))]

/-- How many of a run of pages a table maps to a frame. An entry whose frame
field is zero maps nothing. -/
def mapCount (pt : PageTable) (pages : List ℕ) (frame : ℕ) : ℕ :=
  pages.countP (fun p => decide (getFrame pt p ≠ 0 ∧ getFrame pt p = frame))

/-- The pages of the shared region. -/
abbrev sharedPages : List ℕ :=
  List.range' pagLogInitShared (totalPages - pagLogInitShared)

/-- The data pages. -/
abbrev dataPages : List ℕ := List.range' pagLogInitData numPagData

namespace Mm

variable {m : Mm} {parent child : Slot}

/-! ## System and code -/

theorem foldl_copyEntry (hpc : parent ≠ child) (a n : ℕ) :
    (List.range' a n).foldl (copyEntry parent child) m
      = m.setTable child (fun p =>
          if a ≤ p ∧ p < a + n then (m.pagusrTable parent p).opened
          else m.pagusrTable child p) := by
  induction n with
  | zero =>
    refine Mm.ext rfl ?_ rfl rfl rfl
    funext t
    by_cases ht : t = child
    · subst ht
      funext p
      rw [setTable_apply, if_pos rfl, if_neg (by omega)]
      rfl
    · rw [setTable_apply, if_neg ht]
      rfl
  | succ n ih =>
    rw [List.range'_1_concat, List.foldl_append, ih, List.foldl_cons, List.foldl_nil, copyEntry]
    refine Mm.ext rfl ?_ rfl rfl rfl
    funext t
    by_cases ht : t = child
    · subst ht
      funext p
      simp only [setTable_apply, if_true, if_neg hpc, setSsPag_getFrame]
      by_cases hp : p = a + n
      · rw [if_pos hp, if_pos (by omega), hp]
      · rw [if_neg hp]
        by_cases hin : a ≤ p ∧ p < a + n
        · rw [if_pos hin, if_pos (by omega)]
        · rw [if_neg hin, if_neg (by omega)]
    · simp only [setTable_apply, if_neg ht]

/-! ## Data -/

/-- The memory after a run of data pages has been shared. -/
def sharePages (m : Mm) (parent child : Slot) (pages : List ℕ) : Mm where
  physMem := addCounts m.physMem (pages.map (getFrame (m.pagusrTable parent)))
  pagusrTable := fun t p =>
    if p ∈ pages then
      if t = child then (m.pagusrTable parent p).readOnly
      else if t = parent then { m.pagusrTable parent p with rw := false }
      else m.pagusrTable t p
    else m.pagusrTable t p
  shmMem := m.shmMem
  ram := m.ram
  stuck := m.stuck || pages.any (fun p => decide (totalPages ≤ getFrame (m.pagusrTable parent) p))

/-- One round of the data loop: both entries of the page become read-only,
and no other entry changes. -/
theorem shareDataPage_pagusrTable (hpc : parent ≠ child) (a : ℕ) (t : Slot) (p : ℕ) :
    (shareDataPage parent child m a).pagusrTable t p
      = if p = a then
          if t = child then (m.pagusrTable parent p).readOnly
          else if t = parent then { m.pagusrTable parent p with rw := false }
          else m.pagusrTable t p
        else m.pagusrTable t p := by
  simp only [shareDataPage, setTable_apply, incPhysMem, require, copyEntry, if_neg hpc, if_true]
  by_cases htp : t = parent
  · subst htp
    simp only [if_neg hpc, if_true, setRw_apply]
  · by_cases htc : t = child
    · subst htc
      simp only [if_neg htp, if_true, setRw_apply, setSsPag_getFrame]
      by_cases hp : p = a
      · simp only [hp, if_true]
        rfl
      · simp only [if_neg hp]
    · simp only [if_neg htp, if_neg htc, ite_self]

/-- One round of the data loop: the count of the parent's frame goes up. -/
theorem shareDataPage_physMem (hpc : parent ≠ child) (a : ℕ) :
    (shareDataPage parent child m a).physMem
      = addCounts m.physMem [getFrame (m.pagusrTable parent) a] := by
  simp only [shareDataPage, setTable_apply, setTable_physMem, incPhysMem, require, copyEntry,
    if_neg hpc, addCounts, List.foldl_cons, List.foldl_nil]

theorem shareDataPage_stuck (hpc : parent ≠ child) (a : ℕ) :
    (shareDataPage parent child m a).stuck
      = (m.stuck || decide (totalPages ≤ getFrame (m.pagusrTable parent) a)) := by
  simp only [shareDataPage, setTable_apply, setTable_stuck, incPhysMem, require, copyEntry,
    if_neg hpc]
  rw [← decide_not]
  exact congrArg (m.stuck || ·) (decide_eq_decide.mpr Nat.not_lt)

theorem foldl_shareDataPage (hpc : parent ≠ child) (pages : List ℕ) (hnd : pages.Nodup) :
    pages.foldl (shareDataPage parent child) m = m.sharePages parent child pages := by
  induction pages using List.reverseRecOn with
  | nil => simp [sharePages, addCounts]
  | append_singleton pages a ih =>
    obtain ⟨hnd', -, hdisj⟩ := List.nodup_append.mp hnd
    have ha : a ∉ pages := fun hm => hdisj a hm a (List.mem_singleton_self a) rfl
    rw [List.foldl_append, ih hnd', List.foldl_cons, List.foldl_nil]
    have hpar : ∀ t, (m.sharePages parent child pages).pagusrTable t a = m.pagusrTable t a := by
      intro t
      simp only [sharePages, if_neg ha]
    have hframe : getFrame ((m.sharePages parent child pages).pagusrTable parent) a
        = getFrame (m.pagusrTable parent) a := by
      rw [getFrame, hpar]
      rfl
    refine Mm.ext ?_ ?_ rfl rfl ?_
    · rw [shareDataPage_physMem hpc, hframe]
      simp only [sharePages, List.map_append, List.map_cons, List.map_nil, addCounts,
        List.foldl_append]
    · funext t p
      rw [shareDataPage_pagusrTable hpc]
      by_cases hp : p = a
      · subst hp
        simp only [hpar, if_true]
        simp only [sharePages, List.mem_append, List.mem_singleton, or_true, if_true]
      · rw [if_neg hp]
        simp only [sharePages, List.mem_append, List.mem_singleton, hp, or_false]
    · rw [shareDataPage_stuck hpc, hframe]
      simp only [sharePages, List.any_append, List.any_cons, List.any_nil, Bool.or_false,
        Bool.or_assoc]

/-! ## The shared region -/

theorem foldl_addReference (frame n : ℕ) :
    (List.range n).foldl (addReference frame) m
      = { m with shmMem := fun i =>
          if i < n ∧ (m.shmMem i).shmMemFrameAddr = frame then
            { m.shmMem i with referencias := (m.shmMem i).referencias + 1 }
          else m.shmMem i } := by
  induction n with
  | zero => simp
  | succ n ih =>
    rw [List.range_succ, List.foldl_append, ih, List.foldl_cons, List.foldl_nil, addReference]
    simp only [Nat.lt_irrefl, false_and, if_false]
    by_cases hn : (m.shmMem n).shmMemFrameAddr = frame
    · rw [if_pos hn]
      refine Mm.ext rfl rfl ?_ rfl rfl
      funext i
      simp only [Function.update_apply]
      by_cases hi : i = n
      · subst hi
        rw [if_pos rfl, if_pos ⟨by omega, hn⟩]
      · rw [if_neg hi]
        exact if_congr (by constructor <;> (rintro ⟨h₁, h₂⟩; exact ⟨by omega, h₂⟩)) rfl rfl
    · rw [if_neg hn]
      refine Mm.ext rfl rfl ?_ rfl rfl
      funext i
      refine if_congr ?_ rfl rfl
      constructor
      · rintro ⟨h₁, h₂⟩
        exact ⟨by omega, h₂⟩
      · rintro ⟨h₁, h₂⟩
        refine ⟨?_, h₂⟩
        rcases Nat.lt_succ_iff_lt_or_eq.mp h₁ with h | rfl
        · exact h
        · exact absurd h₂ hn

/-- The memory after a run of shared pages has been inherited. -/
def inheritPages (m : Mm) (parent child : Slot) (pages : List ℕ) : Mm :=
  { m with
    pagusrTable := fun t p =>
      if t = child ∧ p ∈ pages ∧ getFrame (m.pagusrTable parent) p ≠ 0 then
        (m.pagusrTable parent p).opened
      else m.pagusrTable t p
    shmMem := fun i =>
      if i < shmLength then
        { m.shmMem i with
          referencias := (m.shmMem i).referencias
            + mapCount (m.pagusrTable parent) pages (m.shmMem i).shmMemFrameAddr }
      else m.shmMem i }

theorem foldl_inheritSharedPage (hpc : parent ≠ child) (pages : List ℕ) :
    pages.foldl (inheritSharedPage parent child) m = m.inheritPages parent child pages := by
  induction pages using List.reverseRecOn with
  | nil => refine Mm.ext rfl ?_ ?_ rfl rfl <;> simp [inheritPages, mapCount]
  | append_singleton pages a ih =>
    rw [List.foldl_append, ih, List.foldl_cons, List.foldl_nil]
    have hpar : (m.inheritPages parent child pages).pagusrTable parent = m.pagusrTable parent := by
      funext p
      simp only [inheritPages, hpc, false_and, if_false]
    unfold inheritSharedPage
    simp only [hpar]
    by_cases hz : getFrame (m.pagusrTable parent) a = 0
    · rw [if_neg (by simpa using hz)]
      refine Mm.ext rfl ?_ ?_ rfl rfl
      · funext t p
        simp only [inheritPages, List.mem_append, List.mem_singleton]
        refine if_congr ?_ rfl rfl
        constructor
        · rintro ⟨h₁, h₂, h₃⟩
          exact ⟨h₁, Or.inl h₂, h₃⟩
        · rintro ⟨h₁, h₂ | rfl, h₃⟩
          · exact ⟨h₁, h₂, h₃⟩
          · exact absurd hz h₃
      · funext i
        simp [inheritPages, mapCount, hz]
    · rw [if_pos hz, foldl_addReference]
      refine Mm.ext rfl ?_ ?_ rfl rfl
      · funext t p
        simp only [setTable_apply]
        by_cases ht : t = child
        · subst ht
          simp only [if_true, setSsPag_getFrame, inheritPages, List.mem_append,
            List.mem_singleton, true_and]
          by_cases hp : p = a
          · subst hp
            simp [hz]
          · simp [hp]
        · simp [ht, inheritPages]
      · funext i
        simp only [setTable_shmMem, inheritPages, mapCount, List.countP_append, List.countP_cons,
          List.countP_nil, Nat.zero_add, ne_eq, hz, not_false_eq_true, true_and]
        by_cases hi : i < shmLength
        · by_cases hf : (m.shmMem i).shmMemFrameAddr = getFrame (m.pagusrTable parent) a
          · simp [hi, hf, Int.add_assoc]
          · simp [hi, hf, Ne.symm hf]
        · simp [hi]

/-! ## The whole table -/

/-- The table `sys_fork` leaves in the child's slot. -/
def childTable (parent old : PageTable) : PageTable := fun p =>
  if p < pagLogInitData then (parent p).opened
  else if p < pagLogInitShared then (parent p).readOnly
  else if p < totalPages ∧ getFrame parent p ≠ 0 then (parent p).opened
  else old p

/-- The table `sys_fork` leaves to the parent. -/
def parentTable (parent : PageTable) : PageTable := fun p =>
  if pagLogInitData ≤ p ∧ p < pagLogInitShared then { parent p with rw := false } else parent p

/-- **What a successful `sys_fork` does to the memory**, the allocation
aside. -/
theorem forkPages_eq (m : Mm) (hpc : parent ≠ child) :
    m.forkPages parent child
      = { physMem := addCounts m.physMem (dataPages.map (getFrame (m.pagusrTable parent)))
          pagusrTable := fun t =>
            if t = child then childTable (m.pagusrTable parent) (m.pagusrTable child)
            else if t = parent then parentTable (m.pagusrTable parent)
            else m.pagusrTable t
          shmMem := fun i =>
            if i < shmLength then
              { m.shmMem i with
                referencias := (m.shmMem i).referencias
                  + mapCount (m.pagusrTable parent) sharedPages (m.shmMem i).shmMemFrameAddr }
            else m.shmMem i
          ram := m.ram
          stuck := m.stuck || dataPages.any
            (fun p => decide (totalPages ≤ getFrame (m.pagusrTable parent) p)) } := by
  have hmem : ∀ {p : ℕ}, p ∈ dataPages ↔ pagLogInitData ≤ p ∧ p < pagLogInitShared := by
    intro p
    rw [List.mem_range'_1]
  have hmem' : ∀ {p : ℕ}, p ∈ sharedPages ↔ pagLogInitShared ≤ p ∧ p < totalPages := by
    intro p
    rw [List.mem_range'_1, Nat.add_sub_cancel' (by decide)]
  unfold forkPages
  simp only [List.range_eq_range', foldl_copyEntry hpc, foldl_inheritSharedPage hpc]
  rw [show List.range' (numPagKernel + numPagCode) numPagData = dataPages from rfl,
    show List.range' pagLogInitShared (totalPages - pagLogInitShared) = sharedPages from rfl,
    foldl_shareDataPage hpc _ (List.nodup_range' 1)]
  -- the first two loops leave the parent's table, the data loop its frames
  set m₁ := (m.setTable child _).setTable child _ with hm₁
  have hpar : m₁.pagusrTable parent = m.pagusrTable parent := by
    simp only [hm₁, setTable_apply, if_neg hpc]
  have hget : getFrame ((m₁.sharePages parent child dataPages).pagusrTable parent)
      = getFrame (m.pagusrTable parent) := by
    funext p
    simp only [sharePages, getFrame, if_neg hpc, hpar, if_true]
    split_ifs <;> rfl
  refine Mm.ext ?_ ?_ ?_ rfl ?_
  · simp only [inheritPages, sharePages, hpar]
    rfl
  · funext t p
    simp only [inheritPages, hget, hmem']
    by_cases htc : t = child
    · subst htc
      simp only [true_and, if_true, childTable]
      have hopen : ((m₁.sharePages parent t dataPages).pagusrTable parent p).opened
          = (m.pagusrTable parent p).opened := by
        simp only [sharePages, if_neg hpc, hpar, if_true]
        split_ifs <;> rfl
      have hold : (m₁.sharePages parent t dataPages).pagusrTable t p
          = if p < pagLogInitData then (m.pagusrTable parent p).opened
            else if p < pagLogInitShared then (m.pagusrTable parent p).readOnly
            else m.pagusrTable t p := by
        simp only [sharePages, hmem, if_true, hm₁, setTable_apply, if_neg hpc]
        simp only [pagLogInitData, pagLogInitShared, pagLogInitCode, numPagKernel, numPagCode,
          numPagData]
        split_ifs <;> first | rfl | omega
      rw [hopen, hold]
      simp only [pagLogInitData, pagLogInitShared, pagLogInitCode, numPagKernel, numPagCode,
        numPagData]
      split_ifs <;> first | rfl | omega
    · simp only [htc, false_and, if_false, sharePages, hmem]
      by_cases htp : t = parent
      · subst htp
        simp only [if_true, hpar, parentTable]
      · simp only [if_neg htp, ite_self, hm₁, setTable_apply, if_neg htc]
  · have hcount : ∀ f, mapCount ((m₁.sharePages parent child dataPages).pagusrTable parent)
        sharedPages f = mapCount (m.pagusrTable parent) sharedPages f := fun f => by
      rw [mapCount, mapCount, hget]
    funext i
    simp only [inheritPages, hcount]
    rfl
  · simp only [inheritPages, sharePages, hpar]
    rfl

/-- What the child's slot held below the shared region is overwritten. -/
theorem childTable_congr {pt old old' : PageTable}
    (h : ∀ p, pagLogInitShared ≤ p → old p = old' p) : childTable pt old = childTable pt old' := by
  funext p
  unfold childTable
  by_cases hp : p < pagLogInitShared
  · simp only [hp, if_true]
  · simp only [h p (Nat.not_lt.mp hp)]

/-- **What a successful `sys_fork` does to the memory**, the allocation
included: the frames it takes stay marked, and no entry holds them. -/
theorem forkPages_withFrames (m : Mm) (hpc : parent ≠ child) :
    (m.withFrames child numPagData).forkPages parent child
      = { physMem := addCounts (markUsed m.physMem ((freeFrames m.physMem).take numPagData))
            (dataPages.map (getFrame (m.pagusrTable parent)))
          pagusrTable := fun t =>
            if t = child then childTable (m.pagusrTable parent) (m.pagusrTable child)
            else if t = parent then parentTable (m.pagusrTable parent)
            else m.pagusrTable t
          shmMem := fun i =>
            if i < shmLength then
              { m.shmMem i with
                referencias := (m.shmMem i).referencias
                  + mapCount (m.pagusrTable parent) sharedPages (m.shmMem i).shmMemFrameAddr }
            else m.shmMem i
          ram := m.ram
          stuck := m.stuck || dataPages.any
            (fun p => decide (totalPages ≤ getFrame (m.pagusrTable parent) p)) } := by
  have hpar : (m.withFrames child numPagData).pagusrTable parent = m.pagusrTable parent := by
    rw [withFrames]
    exact (setTable_apply m child _ parent).trans (if_neg hpc)
  have hother : ∀ t, t ≠ child → (m.withFrames child numPagData).pagusrTable t = m.pagusrTable t :=
    fun t ht => (setTable_apply m child _ t).trans (if_neg ht)
  have hchild : ∀ p, pagLogInitShared ≤ p →
      (m.withFrames child numPagData).pagusrTable child p = m.pagusrTable child p := by
    intro p hp
    have happ := congrFun ((setTable_apply m child (fun p =>
      if pagLogInitData ≤ p ∧ p < pagLogInitData + numPagData then
        ⟨true, true, true, BitVec.ofNat 20 ((freeFrames m.physMem).getD (p - pagLogInitData) 0)⟩
      else m.pagusrTable child p) child).trans (if_pos rfl)) p
    refine happ.trans (if_neg (fun hc => ?_))
    exact absurd hc.2 (Nat.not_lt.mpr hp)
  rw [forkPages_eq _ hpc, hpar, childTable_congr hchild]
  refine Mm.ext rfl ?_ rfl rfl rfl
  funext t
  by_cases ht : t = child
  · simp only [ht, if_true]
  · simp only [if_neg ht, hother t ht]

/-! ## The counts of references -/

variable {m : Mm} {b : ℤ}

/-- No more than the 740 pages of the shared region. -/
theorem mapCount_sharedPages_le (pt : PageTable) (frame : ℕ) :
    mapCount pt sharedPages frame ≤ 740 := by
  have hle : mapCount pt sharedPages frame ≤ sharedPages.length := List.countP_le_length
  rwa [List.length_range'] at hle

theorem CountsWithin.fork (h : m.CountsWithin b) (hpc : parent ≠ child) :
    ((m.withFrames child numPagData).forkPages parent child).CountsWithin (b + 740) := by
  intro i hi
  obtain ⟨h₁, h₂⟩ := h i hi
  have hle := mapCount_sharedPages_le (m.pagusrTable parent) (m.shmMem i).shmMemFrameAddr
  rw [forkPages_withFrames m hpc]
  dsimp only
  rw [if_pos hi]
  dsimp only
  exact ⟨by omega, by omega⟩

end Mm

end ZeOS.Practica
