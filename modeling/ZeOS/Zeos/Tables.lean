import ZeOS.Zeos.ForkPages
import ZeOS.Zeos.Tree

/-!
# The tables of the processes

Every live process has the table of a process, no slot has anything mapped
past the pages of a process, and the frames of the kernel and the first one of
the allocator are in use for good. A fork gives the child such a table and
leaves the others; an exit clears pages of the dead process only.
-/

namespace ZeOS.Zeos

open Practica (freeFrames markUsed freeAll nodup_freeFrames mem_freeFrames mem_frameScan
  freeAll_apply freeFrames_markUsed_take)

/-- **The tables of the processes.** -/
structure Tabled (m : Mm) (t : Tree) : Prop where
  user : ∀ s ∈ t.alive, UserTable (m.pagusrTable s)
  beyond : ∀ s p, pagLogEnd ≤ p → m.pagusrTable s p = Practica.PageTableEntry.zero
  /-- The frames that are never free. -/
  kernel : ∀ f, f ≤ numPagKernel → m.physMem f ≠ 0

/-- A page of a slot is mapped to a frame. -/
def Kernel.Maps (k : Kernel) (s : Slot) (f : ℕ) : Prop :=
  ∃ p < totalPages, (k.mm.pagusrTable s p).present = true ∧ getFrame (k.mm.pagusrTable s) p = f

/-- The frames a fork takes. -/
abbrev takenFrames (m : Mm) : List ℕ := (freeFrames m.physMem).take numPagData

theorem mem_takenFrames {m : Mm} {f : ℕ} (hf : f ∈ takenFrames m) :
    m.physMem f = 0 ∧ numPagKernel ≤ f ∧ f < totalPages := by
  obtain ⟨hscan, hfree⟩ := mem_freeFrames.mp (List.mem_of_mem_take hf)
  obtain ⟨hge, hlt, -⟩ := mem_frameScan.mp hscan
  exact ⟨hfree, hge, hlt⟩

theorem nodup_takenFrames (m : Mm) : (takenFrames m).Nodup :=
  (nodup_freeFrames m.physMem).sublist (List.take_sublist _ _)

theorem length_takenFrames {m : Mm} (hlen : numPagData ≤ (freeFrames m.physMem).length) :
    (takenFrames m).length = numPagData := by
  rw [takenFrames, List.length_take, Nat.min_eq_left hlen]

theorem getD_takenFrames_mem {m : Mm} (hlen : numPagData ≤ (freeFrames m.physMem).length) {i : ℕ}
    (hi : i < numPagData) : (takenFrames m).getD i 0 ∈ takenFrames m := by
  rw [List.getD_eq_getElem _ _ ((length_takenFrames hlen).symm ▸ hi)]
  exact List.getElem_mem _

/-- The memory a fork leaves. -/
abbrev forkedMm (m : Mm) (parent child : Slot) : Mm :=
  Mm.forkPages parent parent child (takenFrames m)
    { m with physMem := markUsed m.physMem (takenFrames m) }

namespace Tabled

variable {m m' : Mm} {t : Tree} {parent child s : Slot}

theorem congr (h : Tabled m t) (hpt : m'.pagusrTable = m.pagusrTable)
    (hphys : m'.physMem = m.physMem) : Tabled m' t where
  user s hs := by
    rw [hpt]
    exact h.user s hs
  beyond s p hp := by
    rw [hpt]
    exact h.beyond s p hp
  kernel f hf := by
    rw [hphys]
    exact h.kernel f hf

section Fork

variable (h : Tabled m t) (hparent : parent ∈ t.alive) (hne : parent ≠ child)
  (hlen : numPagData ≤ (freeFrames m.physMem).length)

include h hparent hne hlen

/-- The tables and the byte map a fork leaves. -/
theorem forkedMm_eq :
    (∀ u, (forkedMm m parent child).pagusrTable u
      = if u = child then
          childTable (takenFrames m) (m.pagusrTable parent) (m.pagusrTable child)
        else m.pagusrTable u)
      ∧ (forkedMm m parent child).physMem = markUsed m.physMem (takenFrames m)
      ∧ (forkedMm m parent child).stuck = m.stuck := by
  have heq := Mm.forkPages_eq (m := { m with physMem := markUsed m.physMem (takenFrames m) }) hne
    (h.user parent hparent) (length_takenFrames hlen) (fun f hf => (mem_takenFrames hf).2)
    (h.beyond child)
  unfold forkedMm
  rw [heq]
  exact ⟨fun u => Practica.Mm.setTable_apply _ child _ u, rfl, rfl⟩

/-- The frames a fork leaves free. -/
theorem freeFrames_fork :
    freeFrames (forkedMm m parent child).physMem = (freeFrames m.physMem).drop numPagData := by
  rw [(h.forkedMm_eq hparent hne hlen).2.1]
  exact freeFrames_markUsed_take m.physMem numPagData

/-- **A fork** gives the child a table of its own. -/
theorem fork : Tabled (forkedMm m parent child) (t.fork parent child) := by
  obtain ⟨hpt, hphys, -⟩ := h.forkedMm_eq hparent hne hlen
  have hchild := userTable_childTable (h.user parent hparent) (length_takenFrames hlen)
    (fun f hf => (mem_takenFrames hf).2) (h.beyond child)
  refine ⟨fun s hs => ?_, fun s p hp => ?_, fun f hf => ?_⟩
  · rw [hpt]
    split_ifs with hsc
    · exact hchild
    · exact h.user s ((Tree.mem_fork.mp hs).resolve_left hsc)
  · rw [hpt]
    split_ifs with hsc
    · exact hchild.beyond p hp
    · exact h.beyond s p hp
  · rw [hphys, markUsed]
    split_ifs
    · exact Nat.one_ne_zero
    · exact h.kernel f hf

/-- The data pages of the child are in the frames taken. -/
theorem getFrame_fork_data {i : ℕ} (hi : i < numPagData) :
    ((forkedMm m parent child).pagusrTable child (pagLogInitData + i)).present = true
      ∧ getFrame ((forkedMm m parent child).pagusrTable child) (pagLogInitData + i)
        = (takenFrames m).getD i 0 := by
  have hlt : pagLogInitData + i < pagLogInitCode := Nat.add_lt_add_left hi pagLogInitData
  have hchild := userTable_childTable (h.user parent hparent) (length_takenFrames hlen)
    (fun f hf => (mem_takenFrames hf).2) (h.beyond child)
  rw [(h.forkedMm_eq hparent hne hlen).1, if_pos rfl]
  refine ⟨(hchild.user _ (Nat.le_add_right numPagKernel i) (hlt.trans (by decide))).1, ?_⟩
  rw [getFrame_childTable_data (fun f hf => (mem_takenFrames hf).2.2) (Nat.le_add_right _ _) hlt,
    Nat.add_sub_cancel_left]

/-- Its code pages are in the frames of the parent's. -/
theorem getFrame_fork_code {i : ℕ} (hi : i < numPagCode) :
    ((forkedMm m parent child).pagusrTable child (pagLogInitCode + i)).present = true
      ∧ getFrame ((forkedMm m parent child).pagusrTable child) (pagLogInitCode + i)
        = getFrame (m.pagusrTable parent) (pagLogInitCode + i) := by
  have hlt : pagLogInitCode + i < pagLogEnd := Nat.add_lt_add_left hi pagLogInitCode
  have hle : numPagKernel ≤ pagLogInitCode + i := le_trans (by decide) (Nat.le_add_right _ i)
  have hchild := userTable_childTable (h.user parent hparent) (length_takenFrames hlen)
    (fun f hf => (mem_takenFrames hf).2) (h.beyond child)
  rw [(h.forkedMm_eq hparent hne hlen).1, if_pos rfl]
  refine ⟨(hchild.user _ hle hlt).1, ?_⟩
  exact getFrame_childTable_copied hlt (fun hd => Nat.not_lt.mpr (Nat.le_add_right _ i) hd.2)

/-- **The pages of a child**: kernel pages, data pages in the frames taken, and
code pages in those of the parent. -/
theorem page_fork {p : ℕ} (hp : ((forkedMm m parent child).pagusrTable child p).present = true) :
    p < numPagKernel ∧ getFrame ((forkedMm m parent child).pagusrTable child) p < numPagKernel
      ∨ (∃ i < numPagData, p = pagLogInitData + i
        ∧ getFrame ((forkedMm m parent child).pagusrTable child) p = (takenFrames m).getD i 0)
      ∨ ∃ i < numPagCode, p = pagLogInitCode + i
        ∧ getFrame ((forkedMm m parent child).pagusrTable child) p
          = getFrame (m.pagusrTable parent) p := by
  have htable : UserTable ((forkedMm m parent child).pagusrTable child) := by
    rw [(h.forkedMm_eq hparent hne hlen).1, if_pos rfl]
    exact userTable_childTable (h.user parent hparent) (length_takenFrames hlen)
      (fun f hf => (mem_takenFrames hf).2) (h.beyond child)
  rcases Nat.lt_or_ge p pagLogInitData with hk | hk
  · exact Or.inl ⟨hk, htable.kernel p hk⟩
  · rcases Nat.lt_or_ge p pagLogInitCode with hd | hd
    · obtain ⟨i, rfl⟩ := Nat.exists_eq_add_of_le hk
      have hi : i < numPagData := Nat.lt_of_add_lt_add_left hd
      exact Or.inr (Or.inl ⟨i, hi, rfl, (h.getFrame_fork_data hparent hne hlen hi).2⟩)
    · rcases Nat.lt_or_ge p pagLogEnd with hc | hc
      · obtain ⟨i, rfl⟩ := Nat.exists_eq_add_of_le hd
        have hi : i < numPagCode := Nat.lt_of_add_lt_add_left hc
        exact Or.inr (Or.inr ⟨i, hi, rfl, (h.getFrame_fork_code hparent hne hlen hi).2⟩)
      · rw [htable.beyond p hc] at hp
        exact absurd hp Bool.false_ne_true

/-- A frame keeps its bytes, unless it is one of those the copy goes to: the
frames taken, without the first `NUM_PAG_CODE`. -/
theorem ram_fork_other {f o : ℕ}
    (hf : ∀ i, numPagCode ≤ i → i < numPagData → (takenFrames m).getD i 0 ≠ f) :
    (forkedMm m parent child).ram (f, o) = m.ram (f, o) :=
  Mm.forkPages_ram_other hne (h.user parent hparent) (length_takenFrames hlen)
    (fun _ hf => (mem_takenFrames hf).2) (h.beyond child) hf

/-- So the frames of the pages left out keep theirs. -/
theorem ram_fork_leftOut {i o : ℕ} (hi : i < numPagCode) :
    (forkedMm m parent child).ram ((takenFrames m).getD i 0, o)
      = m.ram ((takenFrames m).getD i 0, o) := by
  refine h.ram_fork_other hparent hne hlen (fun j hj hjd he => ?_)
  have hid : i < numPagData := hi.trans (by decide)
  rw [List.getD_inj ((length_takenFrames hlen).symm ▸ hjd)
    ((length_takenFrames hlen).symm ▸ hid) (nodup_takenFrames m)] at he
  exact Nat.not_lt.mpr hj (he ▸ hi)

/-- The frames the copy goes to. -/
theorem ram_fork_data {i o : ℕ}
    (hsep : ∀ p, numPagKernel ≤ p → p < pagLogEnd →
      getFrame (m.pagusrTable parent) p ∉ takenFrames m)
    (h₁ : numPagCode ≤ i) (h₂ : i < numPagData) (ho : o < pageSize) :
    (forkedMm m parent child).ram ((takenFrames m).getD i 0, o)
      = m.ram (getFrame (m.pagusrTable parent) (pagLogInitData + i), o) :=
  Mm.forkPages_ram_data hne (h.user parent hparent) (length_takenFrames hlen)
    (fun _ hf => (mem_takenFrames hf).2) (h.beyond child) (nodup_takenFrames m) hsep h₁ h₂ ho

end Fork

/-- **An exit** leaves the tables of the others, and the frames that are never
free. -/
theorem exit (h : Tabled m t) (s idle : Slot) : Tabled (Mm.exitPages m s) (t.exit s idle) := by
  rw [Mm.exitPages_eq]
  refine ⟨fun u hu => ?_, fun u p hp => ?_, fun f hf => ?_⟩
  · obtain ⟨hne, hu⟩ := Tree.mem_exit.mp hu
    rw [Practica.Mm.setTable_apply, if_neg hne]
    exact h.user u hu
  · rw [Practica.Mm.setTable_apply]
    split_ifs with hus
    · show (if _ then _ else m.pagusrTable s p) = _
      rw [h.beyond s p hp]
      exact ite_self _
    · exact h.beyond u p hp
  · show freeAll m.physMem _ f ≠ 0
    rw [freeAll_apply, if_neg (fun hc => Nat.not_lt.mpr hf hc.2.1)]
    exact h.kernel f hf

end Tabled

end ZeOS.Zeos
