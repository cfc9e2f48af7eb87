import Mathlib.Data.List.GetD
import Mathlib.Data.List.Nodup
import ZeOS.Practica.Sys

/-!
# The frame allocator

`alloc_frame` hands out the first free frame of a fixed sequence, so a
state of the allocator is the list of the frames of that sequence still
free, and an allocation takes its head. Read on that list, the allocation
loop of `sys_fork` is closed: it succeeds exactly when the list is long
enough, it has then taken a prefix of it, and otherwise it has taken all of
it and its rollback has given all of it back – as long as no frame it took
is the one `free_frame` refuses, `NUM_PAG_KERNEL` itself.
-/

namespace ZeOS.Practica

theorem mem_frameScan {f : ℕ} :
    f ∈ frameScan ↔ numPagKernel ≤ f ∧ f < totalPages ∧ f % 2 = 0 := by
  simp only [frameScan, List.mem_range', numPagKernel, totalPages]
  constructor
  · rintro ⟨i, hi, rfl⟩
    omega
  · rintro ⟨h₁, h₂, h₃⟩
    exact ⟨(f - 256) / 2, by omega, by omega⟩

theorem nodup_frameScan : frameScan.Nodup := List.nodup_range' 2

/-- The frames `alloc_frame` can still hand out, in the order it does. -/
def freeFrames (phys : PhysMem) : List ℕ :=
  frameScan.filter (fun i => decide (phys i = freeFrameMark))

theorem mem_freeFrames {phys : PhysMem} {f : ℕ} :
    f ∈ freeFrames phys ↔ f ∈ frameScan ∧ phys f = 0 := by
  rw [freeFrames, List.mem_filter, decide_eq_true_iff]

theorem nodup_freeFrames (phys : PhysMem) : (freeFrames phys).Nodup :=
  nodup_frameScan.filter _

/-- **An allocation takes the head of the free list.** -/
theorem allocFrame_eq (phys : PhysMem) :
    allocFrame phys = match freeFrames phys with
      | [] => (-1, phys)
      | f :: _ => ((f : ℤ), Function.update phys f 1) := by
  have hhead := List.head?_filter (p := fun i => decide (phys i = freeFrameMark)) (l := frameScan)
  rw [allocFrame, ← hhead, ← freeFrames]
  cases freeFrames phys with
  | nil => rfl
  | cons f fs => rfl

theorem allocFrame_of_cons {phys : PhysMem} {f : ℕ} {fs : List ℕ}
    (h : freeFrames phys = f :: fs) :
    allocFrame phys = ((f : ℤ), Function.update phys f 1) := by
  rw [allocFrame_eq, h]

theorem allocFrame_of_nil {phys : PhysMem} (h : freeFrames phys = []) :
    allocFrame phys = (-1, phys) := by
  rw [allocFrame_eq, h]

/-- The byte map with the frames of a list marked as used. -/
def markUsed (phys : PhysMem) (l : List ℕ) : PhysMem :=
  fun f => if f ∈ l then 1 else phys f

@[simp] theorem markUsed_nil (phys : PhysMem) : markUsed phys [] = phys := by
  funext f
  simp [markUsed]

theorem freeFrames_markUsed (phys : PhysMem) (l : List ℕ) :
    freeFrames (markUsed phys l) = (freeFrames phys).filter (fun f => decide (f ∉ l)) := by
  unfold freeFrames
  rw [List.filter_filter]
  refine List.filter_congr (fun f _ => ?_)
  unfold markUsed
  by_cases hf : f ∈ l <;> simp [hf, freeFrameMark]

/-- Keeping what a prefix does not hold is dropping the prefix. -/
theorem filter_notMem_take {α : Type*} [DecidableEq α] {l : List α} (hl : l.Nodup) (n : ℕ) :
    l.filter (fun a => decide (a ∉ l.take n)) = l.drop n := by
  have hdisj := List.disjoint_take_drop hl (le_refl n)
  conv_lhs =>
    rw [← List.take_append_drop n l, List.filter_append]
  rw [List.take_append_drop, List.filter_eq_nil_iff.mpr (fun a ha => by simpa using ha),
    List.filter_eq_self.mpr (fun a ha => by simpa using fun hm => hdisj hm ha), List.nil_append]

/-- After a prefix of the free list has been taken, the rest is free. -/
theorem freeFrames_markUsed_take (phys : PhysMem) (n : ℕ) :
    freeFrames (markUsed phys ((freeFrames phys).take n)) = (freeFrames phys).drop n := by
  rw [freeFrames_markUsed, filter_notMem_take (nodup_freeFrames phys)]

/-- After an allocation the rest is free. -/
theorem freeFrames_update_one {phys : PhysMem} {g : ℕ} {gs : List ℕ}
    (h : freeFrames phys = g :: gs) : freeFrames (Function.update phys g 1) = gs := by
  have hmark : markUsed phys ((freeFrames phys).take 1) = Function.update phys g 1 := by
    funext f
    rw [h, List.take_succ_cons, List.take_zero, markUsed, Function.update_apply]
    simp only [List.mem_singleton]
  rw [← hmark, freeFrames_markUsed_take, h]
  rfl

/-- The allocator fails where nothing is free. -/
theorem freeFrames_eq_nil_of_allocFrame {phys : PhysMem} (h : (allocFrame phys).1 = -1) :
    freeFrames phys = [] := by
  cases hfree : freeFrames phys with
  | nil => rfl
  | cons g gs =>
    rw [allocFrame_of_cons hfree] at h
    dsimp only at h
    omega

/-! ## The allocation loop of `sys_fork` -/

namespace Mm

/-- The memory after the first `n` rounds of the allocation loop, when they
all find a frame. -/
def withFrames (m : Mm) (s : Slot) (n : ℕ) : Mm :=
  { m.setTable s (fun p =>
      if pagLogInitData ≤ p ∧ p < pagLogInitData + n then
        ⟨true, true, true, BitVec.ofNat 20 ((freeFrames m.physMem).getD (p - pagLogInitData) 0)⟩
      else m.pagusrTable s p) with
    physMem := markUsed m.physMem ((freeFrames m.physMem).take n) }

/-- The memory with the first `n` data pages of a slot unmapped. -/
def clearDataPages (m : Mm) (s : Slot) (n : ℕ) : Mm :=
  m.setTable s (fun p =>
    if pagLogInitData ≤ p ∧ p < pagLogInitData + n then PageTableEntry.zero
    else m.pagusrTable s p)

theorem withFrames_zero (m : Mm) (s : Slot) : m.withFrames s 0 = m := by
  refine Mm.ext (by simp [withFrames]) ?_ rfl rfl rfl
  funext t
  by_cases h : t = s
  · subst h
    funext p
    simp [withFrames]
  · simp [withFrames, h]

/-- **One round that finds a frame**: the head of what is left of the free
list, mapped at the next page. -/
theorem withFrames_succ (m : Mm) (s : Slot) {n : ℕ}
    (hn : n < (freeFrames m.physMem).length) :
    { (m.withFrames s n).setTable s
        (setSsPag ((m.withFrames s n).pagusrTable s) (pagLogInitData + n)
          (((freeFrames m.physMem)[n] : ℕ) : ℤ)) with
      physMem := Function.update (m.withFrames s n).physMem (freeFrames m.physMem)[n] 1 }
      = m.withFrames s (n + 1) := by
  refine Mm.ext ?_ ?_ rfl rfl rfl
  · funext f
    simp only [withFrames, markUsed, Function.update_apply, List.take_succ_eq_append_getElem hn,
      List.mem_append, List.mem_singleton]
    split_ifs <;> tauto
  · funext t
    by_cases h : t = s
    · subst h
      funext p
      simp only [withFrames, setTable_apply, if_true, setSsPag_apply]
      by_cases hp : p = pagLogInitData + n
      · subst hp
        rw [if_pos rfl, if_pos ⟨by omega, by omega⟩, Nat.add_sub_cancel_left,
          List.getD_eq_getElem _ _ hn, BitVec.ofInt_natCast]
      · rw [if_neg hp]
        by_cases hin : pagLogInitData ≤ p ∧ p < pagLogInitData + n
        · rw [if_pos hin, if_pos ⟨hin.1, by omega⟩]
        · rw [if_neg hin, if_neg (by omega)]
    · simp [withFrames, h]

theorem freeFrames_withFrames (m : Mm) (s : Slot) (n : ℕ) :
    freeFrames (m.withFrames s n).physMem = (freeFrames m.physMem).drop n :=
  freeFrames_markUsed_take m.physMem n

/-- **The allocation loop in closed form**, from any of its rounds on. Where
the free list is long enough it takes its prefix; otherwise it has taken all
of it when the rollback starts. -/
theorem allocDataPages_withFrames (m : Mm) (s : Slot) (left n : ℕ)
    (hn : n ≤ (freeFrames m.physMem).length) :
    allocDataPages s n left (m.withFrames s n)
      = if n + left ≤ (freeFrames m.physMem).length then (true, m.withFrames s (n + left))
        else (false, (List.range (freeFrames m.physMem).length).foldl (freeDataPage s)
          (m.withFrames s (freeFrames m.physMem).length)) := by
  induction left generalizing n with
  | zero => rw [Nat.add_zero, if_pos hn]; rfl
  | succ left ih =>
    rw [allocDataPages]
    rcases Nat.lt_or_ge n (freeFrames m.physMem).length with hlt | hge
    · have hdrop : freeFrames (m.withFrames s n).physMem
          = (freeFrames m.physMem)[n] :: (freeFrames m.physMem).drop (n + 1) := by
        rw [freeFrames_withFrames, List.drop_eq_getElem_cons hlt]
      rw [allocFrame_of_cons hdrop]
      have hne : (((freeFrames m.physMem)[n] : ℕ) : ℤ) ≠ -1 := by omega
      simp only [if_pos hne]
      rw [withFrames_succ m s hlt, ih (n + 1) hlt,
        show n + 1 + left = n + (left + 1) by omega]
    · have hnil : freeFrames (m.withFrames s n).physMem = [] := by
        rw [freeFrames_withFrames, List.drop_eq_nil_iff.mpr hge]
      have hlen : n = (freeFrames m.physMem).length := le_antisymm hn hge
      rw [allocFrame_of_nil hnil]
      simp only [ne_eq, not_true_eq_false, if_false]
      rw [if_neg (by omega), ← hlen]

/-- The allocation succeeds exactly when the free list is long enough. -/
theorem allocDataPages_fst (m : Mm) (s : Slot) :
    (allocDataPages s 0 numPagData m).1
      = decide (numPagData ≤ (freeFrames m.physMem).length) := by
  have h := allocDataPages_withFrames m s numPagData 0 (Nat.zero_le _)
  rw [withFrames_zero, Nat.zero_add] at h
  rw [h]
  split_ifs with hlen
  · rw [decide_eq_true hlen]
  · rw [decide_eq_false hlen]

theorem allocDataPages_of_le (m : Mm) (s : Slot)
    (hlen : numPagData ≤ (freeFrames m.physMem).length) :
    allocDataPages s 0 numPagData m = (true, m.withFrames s numPagData) := by
  have h := allocDataPages_withFrames m s numPagData 0 (Nat.zero_le _)
  rwa [withFrames_zero, Nat.zero_add, if_pos hlen] at h

/-- The rollback after some of its rounds: the frames given back are a
prefix of those taken, and the pages they were mapped at are cleared. -/
theorem foldl_freeDataPage_withFrames (m : Mm) (s : Slot) {n i : ℕ} (hi : i ≤ n)
    (hn : n ≤ (freeFrames m.physMem).length)
    (hfirst : m.physMem numPagKernel ≠ freeFrameMark) :
    (List.range i).foldl (freeDataPage s) (m.withFrames s n)
      = { (m.withFrames s n).clearDataPages s i with
          physMem := markUsed m.physMem (((freeFrames m.physMem).take n).drop i) } := by
  induction i with
  | zero =>
    refine Mm.ext (by simp [withFrames]) ?_ rfl rfl rfl
    funext t
    by_cases h : t = s
    · subst h
      funext p
      simp [clearDataPages]
    · simp [clearDataPages, h]
  | succ i ih =>
    have hilt : i < ((freeFrames m.physMem).take n).length := by
      rw [List.length_take]
      omega
    have hfr : ((freeFrames m.physMem).take n)[i] = (freeFrames m.physMem)[i] :=
      List.getElem_take
    set f := (freeFrames m.physMem)[i] with hf
    have hfmem : f ∈ freeFrames m.physMem := List.getElem_mem _
    obtain ⟨hscan, hfree⟩ := mem_freeFrames.mp hfmem
    obtain ⟨hf₁, hf₂, hf₃⟩ := mem_frameScan.mp hscan
    have hfk : numPagKernel < f := by
      rcases Nat.lt_or_ge numPagKernel f with h | h
      · exact h
      · exact absurd (le_antisymm h hf₁ ▸ hfree) hfirst
    rw [List.range_succ, List.foldl_append, ih (by omega)]
    -- the page cleared in this round maps the frame taken in round `i`
    have hget : getFrame
        (((m.withFrames s n).clearDataPages s i).pagusrTable s) (pagLogInitData + i) = f := by
      simp only [clearDataPages, setTable_apply, if_true, getFrame]
      rw [if_neg (by omega)]
      simp only [withFrames, setTable_apply, if_true]
      rw [if_pos ⟨by omega, by omega⟩, Nat.add_sub_cancel_left,
        List.getD_eq_getElem _ _ (by omega), ← hf, BitVec.toNat_ofNat]
      exact Nat.mod_eq_of_lt (hf₂.trans (by decide))
    refine Mm.ext ?_ ?_ rfl rfl rfl
    · simp only [List.foldl_cons, List.foldl_nil, freeDataPage, hget, freeFrame,
        if_pos (And.intro hfk hf₂)]
      have hnd : ((freeFrames m.physMem).take n).Nodup :=
        (nodup_freeFrames m.physMem).sublist (List.take_sublist _ _)
      have hdrop : ((freeFrames m.physMem).take n).drop i
          = f :: ((freeFrames m.physMem).take n).drop (i + 1) := by
        rw [List.drop_eq_getElem_cons hilt, hfr]
      have hnot : f ∉ ((freeFrames m.physMem).take n).drop (i + 1) := by
        have := hnd.sublist (List.drop_sublist i _)
        rw [hdrop] at this
        exact (List.nodup_cons.mp this).1
      funext g
      simp only [hdrop, markUsed, Function.update_apply, List.mem_cons]
      by_cases hg : g = f
      · subst hg
        rw [if_pos rfl, if_neg hnot, hfree]
      · simp [hg]
    · funext t
      by_cases h : t = s
      · subst h
        funext p
        simp only [List.foldl_cons, List.foldl_nil, freeDataPage, clearDataPages,
          setTable_apply, if_true, delSsPag_apply]
        by_cases hp : p = pagLogInitData + i
        · rw [if_pos hp, if_pos (by omega)]
        · rw [if_neg hp]
          by_cases hin : pagLogInitData ≤ p ∧ p < pagLogInitData + i
          · rw [if_pos hin, if_pos (by omega)]
          · rw [if_neg hin, if_neg (by omega)]
      · simp [freeDataPage, clearDataPages, h]

/-- **The allocation of `sys_fork`.** With enough free frames it takes the
first ones; without, it leaves the byte map as it was and the pages it had
reached cleared. -/
theorem allocDataPages_eq (m : Mm) (s : Slot)
    (hfirst : m.physMem numPagKernel ≠ freeFrameMark) :
    allocDataPages s 0 numPagData m
      = if numPagData ≤ (freeFrames m.physMem).length then (true, m.withFrames s numPagData)
        else (false, m.clearDataPages s (freeFrames m.physMem).length) := by
  have h := allocDataPages_withFrames m s numPagData 0 (Nat.zero_le _)
  rw [withFrames_zero, Nat.zero_add] at h
  rw [h, foldl_freeDataPage_withFrames m s (le_refl _) (le_refl _) hfirst]
  refine if_congr Iff.rfl rfl (Prod.ext rfl ?_)
  refine Mm.ext (by simp [clearDataPages]) ?_ rfl rfl rfl
  funext t
  by_cases ht : t = s
  · subst ht
    funext p
    simp only [clearDataPages, setTable_apply, if_true]
    by_cases hp : pagLogInitData ≤ p ∧ p < pagLogInitData + (freeFrames m.physMem).length
    · rw [if_pos hp, if_pos hp]
    · rw [if_neg hp, if_neg hp, withFrames, setTable_apply, if_pos rfl, if_neg hp]
  · simp [clearDataPages, withFrames, ht]

/-- **An allocation that fails leaves the memory as it was**, if the slot had
no data pages: the frames it took are given back, and the entries it clears
were clear. -/
theorem allocDataPages_fail (m : Mm) (s : Slot) (hfirst : m.physMem numPagKernel ≠ freeFrameMark)
    (hclear : ∀ p, pagLogInitData ≤ p → p < pagLogInitShared →
      m.pagusrTable s p = PageTableEntry.zero)
    (hlen : (freeFrames m.physMem).length < numPagData) :
    (allocDataPages s 0 numPagData m).2 = m := by
  rw [allocDataPages_eq m s hfirst, if_neg (Nat.not_le.mpr hlen)]
  refine Mm.ext rfl ?_ rfl rfl rfl
  funext t
  rw [clearDataPages, setTable_apply]
  split_ifs with ht
  · funext p
    split_ifs with hp
    · rw [ht]
      exact (hclear p hp.1 (lt_of_lt_of_le hp.2 (Nat.add_le_add_left hlen.le _))).symm
    · rw [ht]
  · rfl

end Mm

end ZeOS.Practica
