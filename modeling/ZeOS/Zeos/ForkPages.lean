import ZeOS.Practica.Copy
import ZeOS.Practica.ExitPages
import ZeOS.Zeos.Sys

/-!
# What the loops of fork and exit do

The allocation of `sys_fork` takes the first free frames or leaves the byte
map as it was. The child's table then gets the kernel and code entries of the
parent and the frames allocated; and each round of the copy stores one page of
the parent in the frame of the child's page of the same number, through a page
of the parent's table that is put back.

The pages copied are the last data pages and the code pages. A code page of
the child has the frame of the parent's, and the copy of a frame onto itself
changes nothing; the first data pages are not copied at all.
-/

namespace ZeOS.Zeos

open Practica (freeFrames markUsed freeAll nodup_freeFrames mem_freeFrames mem_frameScan
  allocFrame_of_cons allocFrame_of_nil freeFrames_markUsed_take freeAll_apply setSsPag_apply
  delSsPag_apply)

/-! ## The allocation -/

/-- Freeing frames that were free before they were taken. -/
theorem freeAll_markUsed {phys : PhysMem} {frames : List ℕ}
    (hmem : ∀ f ∈ frames, f ∈ freeFrames phys) (hfirst : phys numPagKernel ≠ 0) :
    freeAll (markUsed phys frames) frames = phys := by
  funext f
  rw [freeAll_apply]
  by_cases hf : f ∈ frames
  · obtain ⟨hscan, hfree⟩ := mem_freeFrames.mp (hmem f hf)
    obtain ⟨hge, hlt, -⟩ := mem_frameScan.mp hscan
    have hne : f ≠ numPagKernel := fun he => hfirst (he ▸ hfree)
    rw [if_pos ⟨hf, lt_of_le_of_ne hge hne.symm, hlt⟩, hfree]
  · rw [if_neg (fun h => hf h.1), markUsed, if_neg hf]

/-- The allocation loop, entered after some frames have been taken. -/
theorem allocFrames_markUsed (phys : PhysMem) (left n : ℕ)
    (hn : n ≤ (freeFrames phys).length) :
    allocFrames left ((freeFrames phys).take n) (markUsed phys ((freeFrames phys).take n))
      = if n + left ≤ (freeFrames phys).length then
          (some ((freeFrames phys).take (n + left)),
            markUsed phys ((freeFrames phys).take (n + left)))
        else (none, freeAll (markUsed phys (freeFrames phys)) (freeFrames phys)) := by
  induction left generalizing n with
  | zero =>
    rw [Nat.add_zero, if_pos hn]
    rfl
  | succ left ih =>
    rw [allocFrames]
    rcases Nat.lt_or_ge n (freeFrames phys).length with hlt | hge
    · have htake := List.take_succ_eq_append_getElem hlt
      have hdrop : freeFrames (markUsed phys ((freeFrames phys).take n))
          = (freeFrames phys)[n] :: (freeFrames phys).drop (n + 1) := by
        rw [freeFrames_markUsed_take, List.drop_eq_getElem_cons hlt]
      have hmark : Function.update (markUsed phys ((freeFrames phys).take n)) (freeFrames phys)[n] 1
          = markUsed phys ((freeFrames phys).take (n + 1)) := by
        funext f
        simp only [markUsed, Function.update_apply, htake, List.mem_append, List.mem_singleton]
        split_ifs <;> tauto
      have hne : (((freeFrames phys)[n] : ℕ) : ℤ) ≠ -1 := by omega
      rw [allocFrame_of_cons hdrop]
      simp only [if_neg hne, Int.toNat_natCast]
      rw [hmark, ← htake, ih (n + 1) hlt, show n + 1 + left = n + (left + 1) by omega]
    · have hlen : n = (freeFrames phys).length := le_antisymm hn hge
      have hnil : freeFrames (markUsed phys ((freeFrames phys).take n)) = [] := by
        rw [freeFrames_markUsed_take, List.drop_eq_nil_iff.mpr hge]
      rw [allocFrame_of_nil hnil, if_neg (by omega)]
      simp only [if_true]
      rw [hlen, List.take_length]
      rfl

/-- **The allocation of `sys_fork`.** With enough free frames it takes the
first ones; without, it leaves the byte map as it was. -/
theorem allocFrames_eq (phys : PhysMem) (hfirst : phys numPagKernel ≠ 0) :
    allocFrames numPagData [] phys
      = if numPagData ≤ (freeFrames phys).length then
          (some ((freeFrames phys).take numPagData),
            markUsed phys ((freeFrames phys).take numPagData))
        else (none, phys) := by
  have h := allocFrames_markUsed phys numPagData 0 (Nat.zero_le _)
  rwa [List.take_zero, Practica.markUsed_nil, Nat.zero_add,
    freeAll_markUsed (fun f hf => hf) hfirst] at h

/-! ## Frames copied one after the other -/

/-- What the frames hold after `n` of them have been copied, the `i`-th from
`src i` to `dst i`. -/
def copyFrames (ram : Location → Byte) (src dst : ℕ → ℕ) : ℕ → Location → Byte
  | 0 => ram
  | n + 1 => fun loc =>
    if loc.1 = dst n ∧ loc.2 < pageSize then copyFrames ram src dst n (src n, loc.2)
    else copyFrames ram src dst n loc

section CopyFrames

variable {ram : Location → Byte} {src dst : ℕ → ℕ} {n f o : ℕ}

theorem copyFrames_succ :
    copyFrames ram src dst (n + 1) (f, o)
      = if f = dst n ∧ o < pageSize then copyFrames ram src dst n (src n, o)
        else copyFrames ram src dst n (f, o) := rfl

/-- A frame keeps its bytes if nothing but itself is copied to it. -/
theorem copyFrames_of_self (h : ∀ i < n, dst i = f → dst i = src i) :
    copyFrames ram src dst n (f, o) = ram (f, o) := by
  induction n with
  | zero => rfl
  | succ n ih =>
    have ih' := ih (fun i hi => h i (Nat.lt_succ_of_lt hi))
    rw [copyFrames_succ]
    split_ifs with hf
    · have hself : src n = f := (h n (Nat.lt_succ_self n) hf.1.symm).symm.trans hf.1.symm
      rw [hself]
      exact ih'
    · exact ih'

/-- **A frame gets the bytes copied to it**, if nothing else is copied to it
and its source stays. -/
theorem copyFrames_of_lt {i : ℕ} (hi : i < n) (ho : o < pageSize)
    (hdst : ∀ j < n, j ≠ i → dst j = dst i → dst j = src j)
    (hsrc : ∀ j < n, dst j = src i → dst j = src j) :
    copyFrames ram src dst n (dst i, o) = ram (src i, o) := by
  induction n with
  | zero => exact absurd hi (Nat.not_lt_zero i)
  | succ n ih =>
    have hsrc' : ∀ j < n, dst j = src i → dst j = src j :=
      fun j hj => hsrc j (Nat.lt_succ_of_lt hj)
    rw [copyFrames_succ]
    rcases Nat.lt_succ_iff_lt_or_eq.mp hi with hlt | rfl
    · have ih' := ih hlt (fun j hj => hdst j (Nat.lt_succ_of_lt hj)) hsrc'
      split_ifs with hf
      · have hself : dst n = src n :=
          hdst n (Nat.lt_succ_self n) (Nat.ne_of_gt hlt) hf.1.symm
        rw [← hself, ← show dst i = dst n from hf.1]
        exact ih'
      · exact ih'
    · rw [if_pos ⟨rfl, ho⟩]
      exact copyFrames_of_self hsrc'

end CopyFrames

/-! ## The tables of a fork -/

/-- The first logical page past the pages of a process. -/
abbrev pagLogEnd : ℕ := numPagKernel + numPagCode + numPagData

/-- The table of a child. -/
def childTable (frames : List ℕ) (parent old : PageTable) : PageTable := fun p =>
  if p < pagLogInitData then (parent p).opened
  else if p < pagLogInitCode then
    ⟨true, true, true, BitVec.ofNat 20 (frames.getD (p - pagLogInitData) 0)⟩
  else if p < pagLogEnd then (parent p).opened
  else old p

namespace Mm

variable {m : Mm} {parent child : Slot}

/-- The loops that copy the kernel and code entries are those of the other
kernel. -/
theorem foldl_copyEntry (hpc : parent ≠ child) (a n : ℕ) :
    (List.range' a n).foldl (copyEntry parent child) m
      = m.setTable child (fun p =>
          if a ≤ p ∧ p < a + n then (m.pagusrTable parent p).opened
          else m.pagusrTable child p) :=
  Practica.Mm.foldl_copyEntry hpc a n

/-- The loop that maps the frames allocated. -/
theorem foldl_mapDataPage (frames : List ℕ) (n : ℕ) :
    (List.range n).foldl (mapDataPage child frames) m
      = m.setTable child (fun p =>
          if pagLogInitData ≤ p ∧ p < pagLogInitData + n then
            ⟨true, true, true, BitVec.ofNat 20 (frames.getD (p - pagLogInitData) 0)⟩
          else m.pagusrTable child p) := by
  induction n with
  | zero =>
    refine Practica.Mm.ext rfl ?_ rfl rfl rfl
    funext t
    rw [Practica.Mm.setTable_apply]
    split_ifs with ht
    · rw [ht]
      funext p
      rw [if_neg (by omega)]
      rfl
    · rfl
  | succ n ih =>
    rw [List.range_succ, List.foldl_append, ih, List.foldl_cons, List.foldl_nil, mapDataPage]
    refine Practica.Mm.ext rfl ?_ rfl rfl rfl
    funext t
    simp only [Practica.Mm.setTable_apply, if_true]
    split_ifs with ht
    · funext p
      rw [setSsPag_apply]
      by_cases hp : p = pagLogInitData + n
      · rw [if_pos hp, if_pos (by omega), hp, Nat.add_sub_cancel_left, BitVec.ofInt_natCast]
      · rw [if_neg hp]
        by_cases hin : pagLogInitData ≤ p ∧ p < pagLogInitData + n
        · rw [if_pos hin, if_pos (by omega)]
        · rw [if_neg hin, if_neg (by omega)]
    · rfl

/-- The three loops that make the child's table. -/
theorem mapChild_eq (hpc : parent ≠ child) (frames : List ℕ) :
    (List.range numPagData).foldl (mapDataPage child frames)
        ((List.range' pagLogInitCode numPagCode).foldl (copyEntry parent child)
          ((List.range numPagKernel).foldl (copyEntry parent child) m))
      = m.setTable child (childTable frames (m.pagusrTable parent) (m.pagusrTable child)) := by
  rw [foldl_mapDataPage, foldl_copyEntry hpc, List.range_eq_range', foldl_copyEntry hpc]
  refine Practica.Mm.ext rfl ?_ rfl rfl rfl
  funext t
  simp only [Practica.Mm.setTable_apply, if_true, if_neg hpc]
  split_ifs with ht
  · funext p
    simp only [childTable, pagLogInitData, pagLogInitCode, pagLogEnd, numPagKernel, numPagCode,
      numPagData]
    split_ifs <;> first | rfl | omega
  · rfl

/-! ## The copy of a fork -/

/-- **One round of the copy.** -/
theorem copyPage_eq {i : ℕ} (hi : i + numPagData < totalPages)
    (hpres : (m.pagusrTable parent i).present = true)
    (hfree : m.pagusrTable parent (i + numPagData) = Practica.PageTableEntry.zero)
    (hframe : numPagKernel ≤ getFrame (m.pagusrTable child) i) :
    copyPage parent parent child m i
      = { m with ram := fun loc =>
          if loc.1 = getFrame (m.pagusrTable child) i ∧ loc.2 < pageSize then
            m.ram (getFrame (m.pagusrTable parent) i, loc.2)
          else m.ram loc } := by
  -- the memory the copy runs on
  set m₁ : Mm := m.setTable parent
    (setSsPag (m.pagusrTable parent) (i + numPagData) (getFrame (m.pagusrTable child) i)) with hm₁
  have htable : ∀ p, m₁.pagusrTable parent p
      = if p = i + numPagData then (m.pagusrTable child i).opened else m.pagusrTable parent p := by
    intro p
    rw [hm₁, Practica.Mm.setTable_apply, if_pos rfl, Practica.setSsPag_getFrame]
  have hsrc : m₁.pagusrTable parent i = m.pagusrTable parent i := by
    rw [htable, if_neg (Nat.ne_of_lt (Nat.lt_add_of_pos_right (by decide)))]
  have hdst : m₁.pagusrTable parent (i + numPagData) = (m.pagusrTable child i).opened := by
    rw [htable, if_pos rfl]
  have hdst' : getFrame (m₁.pagusrTable parent) (i + numPagData)
      = getFrame (m.pagusrTable child) i := by
    rw [getFrame, hdst]
    rfl
  have hcopy := Practica.Mm.copyData_page (m := m₁) (s := parent)
    (lt_of_le_of_lt (Nat.le_add_right i numPagData) hi) hi (by rw [hsrc]; exact hpres)
    (by rw [hdst]; rfl) (by rw [hdst']; exact hframe)
  rw [hdst', show getFrame (m₁.pagusrTable parent) i = getFrame (m.pagusrTable parent) i from
    congrArg (fun e : PageTableEntry => e.pbaseAddr.toNat) hsrc] at hcopy
  unfold copyPage
  dsimp only
  rw [← hm₁, hcopy]
  refine Practica.Mm.ext rfl ?_ rfl rfl rfl
  funext t
  rw [Practica.Mm.setTable_apply]
  split_ifs with ht
  · -- the page that was mapped meanwhile is cleared, as it was
    funext p
    rw [delSsPag_apply, htable, ht]
    split_ifs with hp
    · rw [hp, hfree]
    · rfl
  · show m₁.pagusrTable t = m.pagusrTable t
    rw [hm₁, Practica.Mm.setTable_apply, if_neg ht]

/-- The copy loop over its first rounds. -/
theorem foldl_copyPage {a n : ℕ} (hn : a + n + numPagData ≤ totalPages)
    (hpres : ∀ i < n, (m.pagusrTable parent (a + i)).present = true)
    (hfree : ∀ i < n, m.pagusrTable parent (a + i + numPagData) = Practica.PageTableEntry.zero)
    (hframe : ∀ i < n, numPagKernel ≤ getFrame (m.pagusrTable child) (a + i)) :
    (List.range' a n).foldl (copyPage parent parent child) m
      = { m with
          ram := copyFrames m.ram (fun i => getFrame (m.pagusrTable parent) (a + i))
            (fun i => getFrame (m.pagusrTable child) (a + i)) n } := by
  induction n with
  | zero => rfl
  | succ n ih =>
    have hlt := Nat.lt_succ_self n
    rw [List.range'_1_concat, List.foldl_append,
      ih (by omega) (fun i hi => hpres i (Nat.lt_succ_of_lt hi))
        (fun i hi => hfree i (Nat.lt_succ_of_lt hi)) (fun i hi => hframe i (Nat.lt_succ_of_lt hi)),
      List.foldl_cons, List.foldl_nil]
    exact copyPage_eq (m := { m with ram := _ }) (by omega) (hpres n hlt) (hfree n hlt)
      (hframe n hlt)

end Mm

/-- **The table of a process**: kernel pages on kernel frames, the data and
code pages mapped to frames of the allocator, and nothing after them. -/
structure UserTable (pt : PageTable) : Prop where
  kernel : ∀ p < numPagKernel, getFrame pt p < numPagKernel
  user : ∀ p, numPagKernel ≤ p → p < pagLogEnd →
    (pt p).present = true ∧ numPagKernel ≤ getFrame pt p ∧ getFrame pt p < totalPages
  beyond : ∀ p, pagLogEnd ≤ p → pt p = Practica.PageTableEntry.zero

section Child

variable {frames : List ℕ} {parent old : PageTable} {p : ℕ}

/-- The frame of a data page of the child. -/
theorem getFrame_childTable_data (hfr : ∀ f ∈ frames, f < totalPages)
    (h₁ : pagLogInitData ≤ p) (h₂ : p < pagLogInitCode) :
    getFrame (childTable frames parent old) p = frames.getD (p - pagLogInitData) 0 := by
  have hlt : frames.getD (p - pagLogInitData) 0 < totalPages := by
    rw [List.getD_eq_getElem?_getD]
    cases hget : frames[p - pagLogInitData]? with
    | none => exact Nat.succ_pos _
    | some f => exact hfr f (List.mem_of_getElem? hget)
  rw [getFrame, childTable, if_neg (Nat.not_lt.mpr h₁), if_pos h₂, BitVec.toNat_ofNat]
  exact Nat.mod_eq_of_lt (hlt.trans (by decide))

/-- The kernel and code pages of the child have the parent's frames. -/
theorem getFrame_childTable_copied (hp : p < pagLogEnd)
    (hdata : ¬ (pagLogInitData ≤ p ∧ p < pagLogInitCode)) :
    getFrame (childTable frames parent old) p = getFrame parent p := by
  rw [getFrame, childTable]
  split_ifs with h₁ h₂
  · rfl
  · exact absurd ⟨Nat.not_lt.mp h₁, h₂⟩ hdata
  · rfl

/-- The table of a child is one of a process. -/
theorem userTable_childTable (hu : UserTable parent) (hlen : frames.length = numPagData)
    (hfr : ∀ f ∈ frames, numPagKernel ≤ f ∧ f < totalPages)
    (hold : ∀ p, pagLogEnd ≤ p → old p = Practica.PageTableEntry.zero) :
    UserTable (childTable frames parent old) where
  kernel p hp := by
    rw [getFrame_childTable_copied (hp.trans (by decide)) (fun h => Nat.not_lt.mpr h.1 hp)]
    exact hu.kernel p hp
  user p h₁ h₂ := by
    have hpres : (childTable frames parent old p).present = true := by
      rw [childTable]
      split_ifs <;> rfl
    refine ⟨hpres, ?_⟩
    by_cases hd : p < pagLogInitCode
    · rw [getFrame_childTable_data (fun f hf => (hfr f hf).2) h₁ hd]
      have hlt : p - pagLogInitData < frames.length := by
        rw [hlen]
        simp only [pagLogInitCode, pagLogInitData, numPagData, numPagKernel] at hd h₁ ⊢
        omega
      rw [List.getD_eq_getElem _ _ hlt]
      exact hfr _ (List.getElem_mem hlt)
    · rw [getFrame_childTable_copied h₂ (fun h => hd h.2)]
      exact (hu.user p h₁ h₂).2
  beyond p hp := by
    have hle : pagLogInitCode ≤ p := le_trans (by decide) hp
    rw [childTable, if_neg (Nat.not_lt.mpr (le_trans (by decide) hp)),
      if_neg (Nat.not_lt.mpr hle), if_neg (Nat.not_lt.mpr hp)]
    exact hold p hp

end Child

/-! ## The memory after a fork -/

namespace Mm

variable {m : Mm} {parent child : Slot} {frames : List ℕ}

/-- The first page that is copied. -/
abbrev pagCopied : ℕ := numPagKernel + numPagCode

/-- **What a fork makes of the memory.** -/
theorem forkPages_eq (hpc : parent ≠ child) (hu : UserTable (m.pagusrTable parent))
    (hlen : frames.length = numPagData) (hfr : ∀ f ∈ frames, numPagKernel ≤ f ∧ f < totalPages)
    (hold : ∀ p, pagLogEnd ≤ p → m.pagusrTable child p = Practica.PageTableEntry.zero) :
    forkPages parent parent child frames m
      = { m.setTable child (childTable frames (m.pagusrTable parent) (m.pagusrTable child)) with
          ram := copyFrames m.ram (fun i => getFrame (m.pagusrTable parent) (pagCopied + i))
            (fun i => getFrame (childTable frames (m.pagusrTable parent) (m.pagusrTable child))
              (pagCopied + i)) numPagData } := by
  have huc := userTable_childTable hu hlen hfr hold
  unfold forkPages
  dsimp only
  rw [mapChild_eq hpc]
  set m₁ := m.setTable child (childTable frames (m.pagusrTable parent) (m.pagusrTable child))
    with hm₁
  have hparent : m₁.pagusrTable parent = m.pagusrTable parent := by
    rw [hm₁, Practica.Mm.setTable_apply, if_neg hpc]
  have hchild : m₁.pagusrTable child
      = childTable frames (m.pagusrTable parent) (m.pagusrTable child) := by
    rw [hm₁, Practica.Mm.setTable_apply, if_pos rfl]
  have hrange : ∀ i < numPagData, numPagKernel ≤ pagCopied + i ∧ pagCopied + i < pagLogEnd := by
    intro i hi
    simp only [pagCopied, pagLogEnd, numPagData] at hi ⊢
    omega
  rw [foldl_copyPage (m := m₁) (by decide) (fun i hi => ?_) (fun i hi => ?_) (fun i hi => ?_),
    hparent, hchild]
  · rfl
  · rw [hparent]
    exact (hu.user _ (hrange i hi).1 (hrange i hi).2).1
  · rw [hparent]
    refine hu.beyond _ ?_
    simp only [pagLogEnd, numPagData]
    omega
  · rw [hchild]
    exact (huc.user _ (hrange i hi).1 (hrange i hi).2).2.1

/-- A page that is copied goes to one of the frames allocated, or stays. -/
theorem copied_or_self {t : PageTable} (hfr : ∀ f ∈ frames, numPagKernel ≤ f ∧ f < totalPages)
    {j : ℕ} (hj : j < numPagData) :
    (numPagCode + j < numPagData ∧ getFrame (childTable frames (m.pagusrTable parent) t)
        (pagCopied + j) = frames.getD (numPagCode + j) 0)
      ∨ getFrame (childTable frames (m.pagusrTable parent) t) (pagCopied + j)
        = getFrame (m.pagusrTable parent) (pagCopied + j) := by
  have hle : pagLogInitData ≤ pagCopied + j := le_trans (by decide) (Nat.le_add_right pagCopied j)
  by_cases hd : pagCopied + j < pagLogInitCode
  · left
    have hlt : numPagCode + j < numPagData := by
      simp only [pagCopied, pagLogInitCode, pagLogInitData, numPagKernel, numPagCode,
        numPagData] at hd ⊢
      omega
    refine ⟨hlt, ?_⟩
    rw [getFrame_childTable_data (fun f hf => (hfr f hf).2) hle hd,
      show pagCopied + j - pagLogInitData = numPagCode + j by
        simp only [pagCopied, pagLogInitData, numPagKernel]
        omega]
  · right
    refine getFrame_childTable_copied ?_ (fun h => hd h.2)
    simp only [pagCopied, pagLogEnd]
    omega

section Contents

variable {f i o : ℕ}

/-- **A frame that is not one the copy goes to** keeps its bytes. -/
theorem forkPages_ram_other (hpc : parent ≠ child) (hu : UserTable (m.pagusrTable parent))
    (hlen : frames.length = numPagData) (hfr : ∀ f ∈ frames, numPagKernel ≤ f ∧ f < totalPages)
    (hold : ∀ p, pagLogEnd ≤ p → m.pagusrTable child p = Practica.PageTableEntry.zero)
    (hf : ∀ i, numPagCode ≤ i → i < numPagData → frames.getD i 0 ≠ f) :
    (forkPages parent parent child frames m).ram (f, o) = m.ram (f, o) := by
  rw [forkPages_eq hpc hu hlen hfr hold]
  refine copyFrames_of_self (fun j hj he => ?_)
  have hto := @copied_or_self m parent frames (m.pagusrTable child) hfr j hj
  rcases hto with h | h
  · exact absurd (h.2.symm.trans he) (hf _ (Nat.le_add_right _ _) h.1)
  · exact h

/-- **The frames the copy goes to** get the parent's pages, if they are none
of the parent's own. -/
theorem forkPages_ram_data (hpc : parent ≠ child) (hu : UserTable (m.pagusrTable parent))
    (hlen : frames.length = numPagData) (hfr : ∀ f ∈ frames, numPagKernel ≤ f ∧ f < totalPages)
    (hold : ∀ p, pagLogEnd ≤ p → m.pagusrTable child p = Practica.PageTableEntry.zero)
    (hnd : frames.Nodup)
    (hsep : ∀ p, numPagKernel ≤ p → p < pagLogEnd → getFrame (m.pagusrTable parent) p ∉ frames)
    (h₁ : numPagCode ≤ i) (h₂ : i < numPagData) (ho : o < pageSize) :
    (forkPages parent parent child frames m).ram (frames.getD i 0, o)
      = m.ram (getFrame (m.pagusrTable parent) (pagLogInitData + i), o) := by
  obtain ⟨j, rfl⟩ := Nat.exists_eq_add_of_le h₁
  have hmem : ∀ n < numPagData, frames.getD n 0 ∈ frames := by
    intro n hn
    rw [List.getD_eq_getElem _ _ (hlen.symm ▸ hn)]
    exact List.getElem_mem _
  have hinj : ∀ n < numPagData, ∀ n' < numPagData, frames.getD n 0 = frames.getD n' 0 → n = n' := by
    intro n hn n' hn' he
    exact (List.getD_inj (hlen.symm ▸ hn) (hlen.symm ▸ hn') hnd).mp he
  have hrange : ∀ n < numPagData, numPagKernel ≤ pagCopied + n ∧ pagCopied + n < pagLogEnd := by
    intro n hn
    simp only [pagCopied, pagLogEnd, numPagData] at hn ⊢
    omega
  have hj : j < numPagData := lt_of_le_of_lt (Nat.le_add_left j numPagCode) h₂
  set src : ℕ → ℕ := fun n => getFrame (m.pagusrTable parent) (pagCopied + n) with hsrc
  set dst : ℕ → ℕ := fun n =>
    getFrame (childTable frames (m.pagusrTable parent) (m.pagusrTable child)) (pagCopied + n)
    with hdst
  have hto : ∀ n < numPagData,
      numPagCode + n < numPagData ∧ dst n = frames.getD (numPagCode + n) 0 ∨ dst n = src n :=
    fun n hn => copied_or_self hfr hn
  have hdstj : dst j = frames.getD (numPagCode + j) 0 := by
    rw [hdst]
    dsimp only
    rw [Nat.add_assoc, getFrame_childTable_data (fun f hf => (hfr f hf).2) (Nat.le_add_right _ _)
      (Nat.add_lt_add_left h₂ numPagKernel), Nat.add_sub_cancel_left]
  rw [forkPages_eq hpc hu hlen hfr hold, ← hdstj, ← Nat.add_assoc]
  show copyFrames m.ram src dst numPagData (dst j, o) = m.ram (src j, o)
  refine copyFrames_of_lt hj ho (fun n hn hne he => ?_) (fun n hn he => ?_)
  · rcases hto n hn with h | h
    · have hsame := hinj _ h.1 _ h₂ (h.2.symm.trans (he.trans hdstj))
      exact absurd (Nat.add_left_cancel hsame) hne
    · exact h
  · rcases hto n hn with h | h
    · exact absurd (hmem _ h.1) (h.2.symm.trans he ▸ hsep _ (hrange j hj).1 (hrange j hj).2)
    · exact h

end Contents

/-! ## Exit -/

/-- **What an exit makes of the memory.** -/
theorem exitPages_eq (m : Mm) (s : Slot) :
    exitPages m s
      = { m.setTable s (fun p =>
            if pagCopied ≤ p ∧ p < pagCopied + numPagData then Practica.PageTableEntry.zero
            else m.pagusrTable s p) with
          physMem := freeAll m.physMem
            ((List.range' pagCopied numPagData).map (getFrame (m.pagusrTable s))) } := by
  rw [exitPages]
  show (List.range' pagCopied numPagData).foldl (freePage s) m = _
  generalize numPagData = n
  induction n with
  | zero =>
    refine Practica.Mm.ext rfl ?_ rfl rfl rfl
    funext t
    rw [Practica.Mm.setTable_apply]
    split_ifs with ht
    · rw [ht]
      funext p
      rw [if_neg (by omega)]
      rfl
    · rfl
  | succ n ih =>
    rw [List.range'_1_concat, List.foldl_append, ih, List.foldl_cons, List.foldl_nil]
    refine Practica.Mm.ext ?_ ?_ rfl rfl rfl
    · simp only [freePage, Practica.Mm.setTable_apply, if_true, freeAll, List.map_append,
        List.map_cons, List.map_nil, List.foldl_append, List.foldl_cons, List.foldl_nil]
      rw [getFrame, if_neg (by omega)]
      rfl
    · funext t
      simp only [freePage, Practica.Mm.setTable_apply, if_true]
      split_ifs with ht
      · funext p
        rw [delSsPag_apply]
        by_cases hp : p = pagCopied + n
        · rw [if_pos hp, if_pos (by omega)]
        · rw [if_neg hp]
          by_cases hin : pagCopied ≤ p ∧ p < pagCopied + n
          · rw [if_pos hin, if_pos (by omega)]
          · rw [if_neg hin, if_neg (by omega)]
      · rfl

end Mm

end ZeOS.Zeos
