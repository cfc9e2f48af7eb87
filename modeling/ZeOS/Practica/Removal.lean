import ZeOS.Practica.Erase
import ZeOS.Practica.ExitShared

/-!
# When a segment marked for removal goes

`sys_shmrm` marks a segment, and with its last reference it should go: the
mark is taken back and its contents are erased. Two calls give references
up. `sys_shmdt` looks at the mark when the count reaches zero, `sys_exit`
does not, so that a segment whose last user exits stays marked, with its
contents, and the next process to attach it reads them. And a count is not
the number of attachments: what a detach of an unmarked segment has left
mapped and uncounted is still there when the count reaches zero.
-/

namespace ZeOS.Practica

namespace Kernel

/-- The segment is to be removed. -/
def Marked (k : Kernel) (i : ℕ) : Prop := (k.mm.shmMem i).aBorrar = true

/-- The count of a segment. -/
def references (k : Kernel) (i : ℕ) : ℤ := (k.mm.shmMem i).referencias

/-- The pages of live processes it is attached at. -/
def attachments (k : Kernel) (i : ℕ) : Finset (Slot × ℕ) :=
  k.mappings (k.mm.shmMem i).shmMemFrameAddr

/-- **A segment removed**: not marked, without references, and erased. -/
structure Removed (k : Kernel) (i : ℕ) : Prop where
  unmarked : ¬ k.Marked i
  references : k.references i = 0
  zero : ∀ j < pageSize, k.mm.ram ((k.mm.shmMem i).shmMemFrameAddr, j) = 0

/-- The event ends an attachment of the current process, by a detach or by
its exit. -/
def EndsAttachment (k : Kernel) (i : ℕ) : Event → Prop
  | .exit _ => ∃ p, (k.sched.current, p) ∈ k.attachments i
  | .shmdt addr => (k.sched.current, pageOf addr) ∈ k.attachments i
  | _ => False

/-- **A step removes a marked segment in time**: however its only attachment
ends, it is removed; it is removed exactly if its count reaches zero; and
never while it is attached somewhere. -/
structure RemovesInTime (k : Kernel) (e : Event) (k' : Kernel) (i : ℕ) : Prop where
  last : (k.attachments i).card = 1 → k.EndsAttachment i e → k'.Removed i
  counted : k'.Removed i ↔ k.references i ≠ 0 ∧ k'.references i = 0
  detached : ¬ k'.Marked i → k'.attachments i = ∅

end Kernel

/-- **The events that remove marked segments in time**: an attachment, if it
is not of such a segment with one reference too few; a fork, if it does not
bring such a count up to zero; an exit, if it neither takes such a count to
zero nor ends the only attachment of such a segment; a detach of a marked
segment with a single reference or a single attachment, if it has both and
its bytes behind the first 512 are zero; and every event of another kind. -/
def RemovesMarked (k : Kernel) : Event → Prop
  | .shmat id addr => ¬ (k.Marked id.toNat ∧ k.references id.toNat = -1
      ∧ Mm.ShmatAccepts id addr ∧ ∃ page, IsFirstFree k.currentPt (pageOf addr) page)
  | .fork _ => k.freeSlots = [] ∨ (freeFrames k.mm.physMem).length < numPagData
      ∨ ∀ i < shmLength, k.Marked i → k.references i
          + mapCount k.currentPt sharedPages (k.mm.shmMem i).shmMemFrameAddr = 0 →
        k.references i = 0
  | .exit _ => ∀ i < shmLength, k.Marked i → (k.references i
          = mapCount k.currentPt sharedPages (k.mm.shmMem i).shmMemFrameAddr →
        k.references i = 0)
      ∧ ((k.attachments i).card = 1 → ∀ p, (k.sched.current, p) ∉ k.attachments i)
  | .shmdt addr => ∀ i < shmLength, (k.sched.current, pageOf addr) ∈ k.attachments i →
      k.Marked i → k.references i = 1 ∨ (k.attachments i).card = 1 →
        k.references i = 1 ∧ (k.attachments i).card = 1
          ∧ ∀ j, pageSize / 8 ≤ j → j < pageSize →
            k.mm.ram ((k.mm.shmMem i).shmMemFrameAddr, j) = 0
  | _ => True

namespace Kernel

variable {M : Machine} {k k' : Kernel} {a a' : Schedule} {e : Event} {i : ℕ} {addr : DWord}

/-- An attachment, read on the schedule. -/
theorem mem_attachments (hf : k.Follows a) {s : Slot} {p : ℕ} :
    (s, p) ∈ k.attachments i ↔ a.Live s ∧ p < totalPages
      ∧ (k.mm.pagusrTable s p).present = true
      ∧ getFrame (k.mm.pagusrTable s) p = (k.mm.shmMem i).shmMemFrameAddr := by
  rw [attachments, mappings, Finset.mem_filter, Finset.mem_product, Finset.mem_filter,
    Finset.mem_range, live_iff hf.threads]
  constructor
  · rintro ⟨⟨⟨-, hs⟩, hp⟩, hmap⟩
    rw [ptOf_eq hf.threads hs] at hmap
    exact ⟨hs, hp, hmap⟩
  · rintro ⟨hs, hp, hmap⟩
    rw [ptOf_eq hf.threads hs]
    exact ⟨⟨⟨Finset.mem_univ s, hs⟩, hp⟩, hmap⟩

/-- A segment that stays marked. -/
theorem removesInTime_iff_of_marked (h : k'.Marked i) :
    k.RemovesInTime e k' i ↔ ((k.attachments i).card = 1 → ¬ k.EndsAttachment i e)
      ∧ (k'.references i = 0 → k.references i = 0) := by
  have hnot : ¬ k'.Removed i := fun hr => hr.unmarked h
  constructor
  · intro hrem
    refine ⟨fun hone hends => hnot (hrem.last hone hends), fun hzero => ?_⟩
    by_contra hne
    exact hnot (hrem.counted.mpr ⟨hne, hzero⟩)
  · rintro ⟨hlast, hcount⟩
    exact ⟨fun hone hends => absurd hends (hlast hone),
      iff_of_false hnot (fun hc => hc.1 (hcount hc.2)), fun hc => absurd h hc⟩

/-- A segment the step has not touched. -/
theorem removesInTime_of_same (hsame : k'.mm.shmMem i = k.mm.shmMem i) (h : k.Marked i)
    (hends : ¬ k.EndsAttachment i e) : k.RemovesInTime e k' i := by
  have hmark : k'.Marked i := by rwa [Marked, hsame]
  refine (removesInTime_iff_of_marked hmark).mpr ⟨fun _ => hends, fun hzero => ?_⟩
  rwa [references, hsame] at hzero

/-! ## The detach -/

/-- The current process is live. -/
theorem current_live (a : Schedule) : a.Live a.current := Or.inl rfl

/-- The page of a detach has one segment at most. -/
theorem eq_of_mem_attachments (hf : k.Follows a) (hm : Mapped M a k.mm) {s : Slot} {p j : ℕ}
    (hi : i < shmLength) (hj : j < shmLength) (h : (s, p) ∈ k.attachments i)
    (h' : (s, p) ∈ k.attachments j) : i = j := by
  obtain ⟨-, -, -, hfi⟩ := (mem_attachments hf).mp h
  obtain ⟨-, -, -, hfj⟩ := (mem_attachments hf).mp h'
  refine shmFrame_injective ?_
  rw [← hm.shm_addr i hi, ← hm.shm_addr j hj, ← hfi, hfj]

/-- Unmapping a page ends the attachment there. -/
theorem attachments_unmapped (hf : k.Follows a) (hf' : k'.Follows a) {s : Slot} {page : ℕ}
    (htab : k'.mm.pagusrTable = (k.mm.setTable s (delSsPag (k.mm.pagusrTable s) page)).pagusrTable)
    (haddr : (k'.mm.shmMem i).shmMemFrameAddr = (k.mm.shmMem i).shmMemFrameAddr) :
    k'.attachments i = (k.attachments i).erase (s, page) := by
  ext ⟨t, p⟩
  rw [Finset.mem_erase, mem_attachments hf, mem_attachments hf', htab, haddr, Mm.setTable_apply]
  by_cases hts : t = s
  · subst hts
    rw [if_pos rfl, getFrame, delSsPag_apply]
    by_cases hp : p = page
    · rw [if_pos hp, hp]
      exact iff_of_false (fun hc => absurd hc.2.2.1 (by decide)) (fun hc => hc.1 rfl)
    · rw [if_neg hp]
      exact (and_iff_right (fun hc => hp (Prod.ext_iff.mp hc).2)).symm
  · rw [if_neg hts]
    exact (and_iff_right (fun hc => hts (Prod.ext_iff.mp hc).1)).symm

/-- A detach leaves the segments that are not attached at its page. -/
theorem shmMem_of_not_attached (hf : k.Follows a) (hdown : k'.mm.stuck = false)
    (hmm : k'.mm = (k.mm.sysShmdt a.current a.current addr).2)
    (hatt : (k.sched.current, pageOf addr) ∉ k.attachments i) :
    k'.mm.shmMem i = k.mm.shmMem i := by
  rw [hf.threads.current_eq] at hatt
  -- the segment found at the page is another one
  have hne : ∀ {j}, k.mm.segmentAt a.current (pageOf addr) = some j → i ≠ j := by
    rintro j hseg rfl
    obtain ⟨hlt, hpres, -, hframe⟩ := Mm.segmentAt_eq_some hseg
    exact hatt ((mem_attachments hf).mpr ⟨current_live a, hlt, hpres, hframe.symm⟩)
  rw [hmm] at hdown ⊢
  rcases Mm.sysShmdt_cases hdown with ⟨-, he⟩ | ⟨j, hseg, ⟨-, he⟩ | ⟨-, ram, he⟩⟩
  · rw [he]
  · rw [shmdtPage_eq] at hseg
    rw [he]
    exact Function.update_of_ne (hne hseg) _ _
  · rw [shmdtPage_eq] at hseg
    rw [he]
    exact Function.update_of_ne (hne hseg) _ _

/-- **The last reference detached**: the segment is removed in time exactly
if this was the only attachment and the rest of its bytes were zero. -/
theorem removesInTime_detachLast_iff (hf : k.Follows a) (hm : Mapped M a k.mm)
    (hf' : k'.Follows a) (hmm : k'.mm = (k.mm.sysShmdt a.current a.current addr).2)
    (hi : i < shmLength) (hmark : k.Marked i) (hlast : k.references i = 1)
    (hatt : (k.sched.current, pageOf addr) ∈ k.attachments i) :
    k.RemovesInTime (.shmdt addr) k' i ↔ (k.attachments i).card = 1
      ∧ ∀ j, pageSize / 8 ≤ j → j < pageSize →
        k.mm.ram ((k.mm.shmMem i).shmMemFrameAddr, j) = 0 := by
  rw [hf.threads.current_eq] at hatt
  obtain ⟨-, hlt, hpres, hframe⟩ := (mem_attachments hf).mp hatt
  have hseg := Mm.segmentAt_of_frame hm.shm_addr hi hlt hpres hframe
  have hkernel : numPagKernel ≤ getFrame (k.mm.pagusrTable a.current) (pageOf addr) := by
    rw [hframe, hm.shm_addr i hi]
    exact le_trans (by decide) (isShm_shmFrame hi).bounds.1
  rw [Mm.sysShmdt_last hseg hmark hlast hkernel, hframe] at hmm
  have hshm : k'.mm.shmMem i = { k.mm.shmMem i with referencias := 0, aBorrar := false } := by
    rw [hmm]
    dsimp only
    rw [Function.update_self]
  have haddr : (k'.mm.shmMem i).shmMemFrameAddr = (k.mm.shmMem i).shmMemFrameAddr := by rw [hshm]
  have hunmark : ¬ k'.Marked i := by
    rw [Marked, hshm]
    exact Bool.false_ne_true
  have hzero : k'.references i = 0 := by rw [references, hshm]
  have herase : k'.attachments i = (k.attachments i).erase (a.current, pageOf addr) :=
    attachments_unmapped hf hf' (by rw [hmm]) haddr
  have hempty : k'.attachments i = ∅ ↔ (k.attachments i).card = 1 := by
    have hpos := Finset.card_pos.mpr ⟨_, hatt⟩
    rw [herase, ← Finset.card_eq_zero, Finset.card_erase_of_mem hatt]
    omega
  have hremoved : k'.Removed i ↔ ∀ j, pageSize / 8 ≤ j → j < pageSize →
      k.mm.ram ((k.mm.shmMem i).shmMemFrameAddr, j) = 0 := by
    rw [← Mm.cleared_zero_iff (congrArg Mm.ram hmm), ← haddr]
    exact ⟨fun hr => hr.zero, fun hz => ⟨hunmark, hzero, hz⟩⟩
  constructor
  · intro hrem
    have hone : k.references i ≠ 0 := by
      rw [hlast]
      decide
    exact ⟨hempty.mp (hrem.detached hunmark), hremoved.mp (hrem.counted.mpr ⟨hone, hzero⟩)⟩
  · rintro ⟨hone, htail⟩
    have hr := hremoved.mpr htail
    refine ⟨fun _ _ => hr, iff_of_true hr ⟨?_, hzero⟩, fun _ => hempty.mpr hone⟩
    rw [hlast]
    decide

/-- **Any other reference detached.** -/
theorem removesInTime_detach_iff (hf : k.Follows a) (hm : Mapped M a k.mm)
    (hmm : k'.mm = (k.mm.sysShmdt a.current a.current addr).2)
    (hi : i < shmLength) (hmark : k.Marked i) (hlast : k.references i ≠ 1)
    (hatt : (k.sched.current, pageOf addr) ∈ k.attachments i) :
    k.RemovesInTime (.shmdt addr) k' i ↔ (k.attachments i).card ≠ 1 := by
  have hends : k.EndsAttachment i (.shmdt addr) := hatt
  rw [hf.threads.current_eq] at hatt
  obtain ⟨-, hlt, hpres, hframe⟩ := (mem_attachments hf).mp hatt
  have hseg := Mm.segmentAt_of_frame hm.shm_addr hi hlt hpres hframe
  rw [← shmdtPage_eq] at hseg
  have hearly : (k.mm.shmMem i).aBorrar = false ∨ (k.mm.shmMem i).referencias ≠ 1 :=
    Or.inr hlast
  rw [(Mm.sysShmdt_some hseg).2, if_pos hearly] at hmm
  have hshm : k'.mm.shmMem i
      = { k.mm.shmMem i with referencias := (k.mm.shmMem i).referencias + -1 } := by
    rw [hmm, Mm.addRef_self]
  have hmark' : k'.Marked i := by
    rw [Marked, hshm]
    exact hmark
  rw [removesInTime_iff_of_marked hmark']
  refine ⟨fun h hone => h.1 hone hends, fun h => ⟨fun hone => absurd hone h, fun hzero => ?_⟩⟩
  rw [references, hshm] at hzero
  replace hzero : k.references i + -1 = 0 := hzero
  exact absurd (by omega) hlast

/-- **A detach.** -/
theorem removesInTime_shmdt_iff (hf : k.Follows a) (hm : Mapped M a k.mm) (hf' : k'.Follows a)
    (hmm : k'.mm = (k.mm.sysShmdt a.current a.current addr).2) :
    (∀ i < shmLength, k.Marked i → k.RemovesInTime (.shmdt addr) k' i)
      ↔ RemovesMarked k (.shmdt addr) := by
  refine forall₂_congr (fun i hi => ?_)
  by_cases hmark : k.Marked i
  · rw [forall_prop_of_true hmark]
    by_cases hatt : (k.sched.current, pageOf addr) ∈ k.attachments i
    · rw [forall_prop_of_true hatt, forall_prop_of_true hmark]
      by_cases hlast : k.references i = 1
      · rw [removesInTime_detachLast_iff hf hm hf' hmm hi hmark hlast hatt,
          forall_prop_of_true (Or.inl hlast)]
        exact (and_iff_right hlast).symm
      · rw [removesInTime_detach_iff hf hm hmm hi hmark hlast hatt]
        exact ⟨fun h hc => absurd hc (not_or.mpr ⟨hlast, h⟩),
          fun h hc => hlast (h (Or.inr hc)).1⟩
    · exact iff_of_true
        (removesInTime_of_same (shmMem_of_not_attached hf hf'.mm_down hmm hatt) hmark hatt)
        (fun hc => absurd hc hatt)
  · exact iff_of_true (fun hc => absurd hc hmark) (fun _ hc => absurd hc hmark)

/-! ## The other steps -/

/-- A step that leaves the segments as they are. -/
theorem removesInTime_iff_of_same (hsame : ∀ i < shmLength, k'.mm.shmMem i = k.mm.shmMem i)
    (hends : ∀ i, ¬ k.EndsAttachment i e) (hcond : RemovesMarked k e) :
    (∀ i < shmLength, k.Marked i → k.RemovesInTime e k' i) ↔ RemovesMarked k e :=
  iff_of_true (fun i hi hmark => removesInTime_of_same (hsame i hi) hmark (hends i)) hcond

/-- A step that changes the counts only. -/
theorem removesInTime_iff_of_counted {d : ℕ → ℤ}
    (hshm : ∀ i < shmLength, k'.mm.shmMem i
      = { k.mm.shmMem i with referencias := (k.mm.shmMem i).referencias + d i }) :
    (∀ i < shmLength, k.Marked i → k.RemovesInTime e k' i)
      ↔ ∀ i < shmLength, k.Marked i →
          (k.references i + d i = 0 → k.references i = 0)
            ∧ ((k.attachments i).card = 1 → ¬ k.EndsAttachment i e) := by
  refine forall₂_congr (fun i hi => forall_congr' (fun hmark => ?_))
  have hmark' : k'.Marked i := by
    rw [Marked, hshm i hi]
    exact hmark
  rw [removesInTime_iff_of_marked hmark', references, references, hshm i hi, and_comm]

/-- **An attachment.** -/
theorem removesInTime_shmat_iff (hf : k.Follows a) (hdown : k'.mm.stuck = false) {id : DWord}
    (hmm : k'.mm = (k.mm.sysShmat a.current id addr).2) :
    (∀ i < shmLength, k.Marked i → k.RemovesInTime (.shmat id addr) k' i)
      ↔ RemovesMarked k (.shmat id addr) := by
  have hpt := currentPt_eq hf.threads
  by_cases hacc : Mm.ShmatAccepts id addr
    ∧ ∃ page, IsFirstFree (k.mm.pagusrTable a.current) (pageOf addr) page
  · obtain ⟨hacc, page, hfirst⟩ := hacc
    rw [Mm.sysShmat_of_firstFree hacc hfirst] at hmm
    have hshm : ∀ i < shmLength, k'.mm.shmMem i = { k.mm.shmMem i with
        referencias := (k.mm.shmMem i).referencias + if i = id.toNat then 1 else 0 } := by
      intro i hi
      rw [hmm]
      show Function.update k.mm.shmMem id.toNat _ i = _
      rw [Function.update_apply]
      split_ifs with hid
      · rw [hid]
      · rw [add_zero]
    rw [removesInTime_iff_of_counted hshm]
    constructor
    · rintro hall ⟨hmark, hneg, -⟩
      have hzero := (hall id.toNat hacc.id_lt hmark).1
      rw [if_pos rfl, hneg] at hzero
      exact absurd (hzero rfl) (by decide)
    · intro hcond i hi hmark
      refine ⟨fun hzero => ?_, fun _ hends => hends⟩
      split_ifs at hzero with hid
      · subst hid
        exact absurd ⟨hmark, by omega, hacc, page, hpt ▸ hfirst⟩ hcond
      · rwa [add_zero] at hzero
  · have hsame : k'.mm = k.mm := by
      rw [hmm] at hdown ⊢
      rcases Mm.sysShmat_cases hdown with he | ⟨i, page, -, hlt, hpres, hacc', hle, -⟩
      · exact he
      · -- a page was free, and so there is a first one
        have hlow : pageOf addr < totalPages :=
          (sshiftRight_lt_iff addr).mp (hle.trans_lt hlt)
        rw [Mm.sshiftRight_eq_pageOf hlow] at hle
        cases hfree : Mm.findFreePage (k.mm.pagusrTable a.current) (pageOf addr) with
        | none =>
          have hall := Mm.findFreePage_eq_none_iff.mp hfree page hle hlt
          rw [hpres] at hall
          exact absurd hall (by decide)
        | some first =>
          exact absurd ⟨hacc', first, Mm.findFreePage_eq_some_iff.mp hfree⟩ hacc
    refine removesInTime_iff_of_same (fun i _ => by rw [hsame]) (fun _ hends => hends) ?_
    rintro ⟨-, -, hacc', hpage⟩
    exact hacc ⟨hacc', hpt ▸ hpage⟩

/-- **A request to remove** a segment leaves those already marked as they
are. -/
theorem removesInTime_shmrm (hdown : k'.mm.stuck = false) {id : DWord}
    (hmm : k'.mm = (k.mm.sysShmrm id).2) (hmark : k.Marked i) :
    k.RemovesInTime (.shmrm id) k' i := by
  refine removesInTime_of_same ?_ hmark (fun hends => hends)
  rw [hmm] at hdown ⊢
  rcases Mm.sysShmrm_cases hdown with he | ⟨j, -, he⟩
  · rw [he]
  · rw [he]
    show Function.update k.mm.shmMem j _ i = k.mm.shmMem i
    rw [Function.update_apply]
    split_ifs with hij
    · rw [← hij]
      exact congrArg (fun b => { k.mm.shmMem i with aBorrar := b }) hmark.symm
    · rfl

/-- **Every step.** -/
theorem removesInTime_iff (hf : k.Follows a) (hm : Mapped M a k.mm) (hst : k.step e = some k') :
    (∀ i < shmLength, k.Marked i → k.RemovesInTime e k' i) ↔ RemovesMarked k e := by
  obtain ⟨a', hf', ho, hen⟩ := hf.step hst
  have hpt := currentPt_eq hf.threads
  generalize hmm : k'.mm = m' at ho
  cases ho with
  | stay | switch | key | load | store | yield | read | getStats =>
    exact removesInTime_iff_of_same (fun i _ => by rw [hmm]) (fun _ hends => hends) trivial
  | storeFault addr b m₁ loc hcan hfault =>
    have hshm := (pagesOf_faulted hm (a.user_current (hen rfl)) hfault
      (isShm_shmFrame (i := 0) (by decide))).1
    exact removesInTime_iff_of_same (fun i _ => by rw [hmm]; exact congrFun hshm i)
      (fun _ hends => hends) trivial
  | fault cr2 m₁ hcan hfault =>
    have hshm := (pagesOf_faulted hm (a.user_current (hen rfl)) hfault
      (isShm_shmFrame (i := 0) (by decide))).1
    exact removesInTime_iff_of_same (fun i _ => by rw [hmm]; exact congrFun hshm i)
      (fun _ hends => hends) trivial
  | forkNone ebp hnone =>
    exact removesInTime_iff_of_same (fun i _ => by rw [hmm]) (fun _ hends => hends)
      (Or.inl ((freeSlots_eq hf.threads).trans hnone))
  | forkFail ebp c cs hcons hlen =>
    rw [hm.forkFail_mm (hcons ▸ List.mem_cons_self) hlen] at hmm
    exact removesInTime_iff_of_same (fun i _ => by rw [hmm]) (fun _ hends => hends)
      (Or.inr (Or.inl hlen))
  | forkOk ebp c cs hcons hidle hlen =>
    have hshm : ∀ i < shmLength, k'.mm.shmMem i = { k.mm.shmMem i with
        referencias := (k.mm.shmMem i).referencias
          + mapCount k.currentPt sharedPages (k.mm.shmMem i).shmMemFrameAddr } := by
      intro i hi
      rw [hmm, Mm.forkPages_withFrames _ (a.first_free hcons).2.2, hpt]
      exact if_pos hi
    rw [removesInTime_iff_of_counted hshm]
    constructor
    · exact fun hall => Or.inr (Or.inr fun i hi hmark => (hall i hi hmark).1)
    · rintro (hnil | hlt | hall)
      · rw [freeSlots_eq hf.threads, hcons] at hnil
        exact absurd hnil (List.cons_ne_nil c cs)
      · exact absurd hlt (Nat.not_lt.mpr hlen)
      · exact fun i hi hmark => ⟨hall i hi hmark, fun _ hends => hends⟩
  | exit ebp hidle =>
    have hshm : ∀ i < shmLength, k'.mm.shmMem i = { k.mm.shmMem i with
        referencias := (k.mm.shmMem i).referencias
          + -(mapCount k.currentPt sharedPages (k.mm.shmMem i).shmMemFrameAddr : ℤ) } := by
      intro i hi
      rw [hmm, (Mm.exitPages_dropped k.mm a.current).shmMem, if_pos hi, hpt]
      rfl
    rw [removesInTime_iff_of_counted hshm]
    refine forall₂_congr (fun i hi => forall_congr' (fun hmark => and_congr ?_ ?_))
    · rw [add_neg_eq_zero]
    · exact forall_congr' (fun _ => not_exists)
  | shmat id addr => exact removesInTime_shmat_iff hf hf'.mm_down hmm
  | shmdt addr => exact removesInTime_shmdt_iff hf hm hf' hmm
  | shmrm id =>
    exact iff_of_true (fun _ _ hmark => removesInTime_shmrm hf'.mm_down hmm hmark) trivial

end Kernel

/-- **Marked segments are removed in time in every step of a run exactly if
each of its steps is one that does so.** -/
theorem removes_in_time_iff (M : Machine) (es : List Event) (k : Kernel)
    (h : Run Kernel.step (fun _ _ => True) M.boot es k) :
    (∀ bs e cs u v, es = bs ++ e :: cs → Run Kernel.step (fun _ _ => True) M.boot bs u →
        u.step e = some v → ∀ i < shmLength, u.Marked i → u.RemovesInTime e v i)
      ↔ Run Kernel.step RemovesMarked M.boot es k := by
  have hstep : ∀ (k : Kernel) (e : Event) (k' : Kernel), (∃ a, k.Follows a ∧ Mapped M a k.mm) →
      True → RemovesMarked k e → k.step e = some k' → ∃ a, k'.Follows a ∧ Mapped M a k'.mm := by
    rintro k e k' ⟨a, hf, hm⟩ - - hst
    obtain ⟨a', hf', ho, hen⟩ := hf.step hst
    exact ⟨a', hf', hm.outcome hen ho hf'.mm_down⟩
  refine (h.steps_iff (Q := RemovesMarked)
    (T := fun u e v => ∀ i < shmLength, u.Marked i → u.RemovesInTime e v i) hstep ?_
    ⟨_, follows_boot M, Mapped.boot M⟩).trans ⟨fun hr => hr.mono (fun _ _ hP => hP.2),
      fun hr => hr.mono (fun _ _ hP => ⟨trivial, hP⟩)⟩
  rintro k e k' ⟨a, hf, hm⟩ - hst
  exact Kernel.removesInTime_iff hf hm hst

/-! ## The first segment -/

section MarkedOnce

variable {M : Machine} {k : Kernel}

theorem MarkedOnce.mem_attachments (h : MarkedOnce M k) :
    (k.sched.current, pageOf 0x11c000#32) ∈ k.attachments 0 := by
  have hpage : pageOf 0x11c000#32 = 284 := by decide
  have hcur : k.sched.current = 1 := h.follows.threads.current_eq
  rw [hcur, hpage, Kernel.mem_attachments h.follows]
  exact ⟨Kernel.current_live bootSchedule, by decide, h.present, h.frame⟩

/-- The count is the number of attachments. -/
theorem MarkedOnce.card_attachments (h : MarkedOnce M k) : (k.attachments 0).card = 1 := by
  have hex := (exactReferences_iff h.follows h.mapped).mpr h.exact 0 (by decide)
  rw [h.last] at hex
  exact (Int.natCast_inj.mp hex).symm

/-- The loop of `sys_exit` counts the one page. -/
theorem MarkedOnce.mapCount_eq (h : MarkedOnce M k) :
    mapCount (k.mm.pagusrTable 1) sharedPages (k.mm.shmMem 0).shmMemFrameAddr = 1 := by
  have hf0 : (k.mm.shmMem 0).shmMemFrameAddr ≠ 0 := by
    rw [h.mapped.shm_addr 0 (by decide)]
    decide
  have hall := h.card_attachments
  have hone : (pagesOf (k.mm.pagusrTable 1) (k.mm.shmMem 0).shmMemFrameAddr).card
      ≤ (k.attachments 0).card := by
    refine Finset.card_le_card_of_injOn (fun p => ((1 : Slot), p)) (fun p hp => ?_)
      (fun p _ q _ he => (Prod.ext_iff.mp he).2)
    exact (Kernel.mem_attachments h.follows).mpr
      ⟨Kernel.current_live bootSchedule, mem_pagesOf.mp hp⟩
  have hpos : 0 < mapCount (k.mm.pagusrTable 1) sharedPages _ := mapCount_pos
    (List.mem_range'_1.mpr (show 284 ≤ 284 ∧ 284 < _ by decide)) hf0 h.frame
  have hsum := card_pagesOf (h.mapped.shared 1) hf0
  omega

/-- The detach is one that the machine can follow. -/
theorem MarkedOnce.detach_down (h : MarkedOnce M k) :
    (k.mm.sysShmdt 1 1 0x11c000#32).2.stuck = false := by
  have hpage : pageOf 0x11c000#32 = 284 := by decide
  have hseg : k.mm.segmentAt 1 (pageOf 0x11c000#32) = some 0 := by
    rw [hpage]
    exact Mm.segmentAt_of_frame h.mapped.shm_addr (by decide) (by decide) h.present h.frame
  have hkernel : numPagKernel ≤ getFrame (k.mm.pagusrTable 1) (pageOf 0x11c000#32) := by
    rw [hpage, h.frame, h.mapped.shm_addr 0 (by decide)]
    decide
  rw [Mm.sysShmdt_last hseg h.marked h.last hkernel]
  exact h.follows.mm_down

end MarkedOnce

/-- The segment is detached by its only user, in a machine with something in
the first 512 bytes of every frame, and these are erased. -/
theorem removes_in_time_iff_detach :
    ∃ M u v, Run Kernel.step (fun _ _ => True) (Machine.boot M)
        [.shmat 0#32 0x11c000#32, .shmrm 0#32] u
      ∧ (∀ j < pageSize / 8, u.mm.ram ((u.mm.shmMem 0).shmMemFrameAddr, j) = 1)
      ∧ u.step (.shmdt 0x11c000#32) = some v ∧ v.Removed 0 := by
  let M : Machine := { Machine.sample with ram := bytesBefore }
  obtain ⟨k, u, hst₁, hst₂, h⟩ := exists_markedOnce M
  obtain ⟨v, hst₃, -, -⟩ :=
    Kernel.exists_shmdt h.follows (by decide) 0x11c000#32 rfl h.detach_down
      ((h.counts.sysShmdt h.detach_down).fit (by decide))
  have hkeep₁ : RemovesMarked M.boot (.shmat 0#32 0x11c000#32) := by
    rintro ⟨hmark, -⟩
    rw [Kernel.Marked, boot_unmarked] at hmark
    exact absurd hmark (by decide)
  have hkeep₃ : RemovesMarked u (.shmdt 0x11c000#32) := by
    intro i hi hatt _ _
    obtain rfl := Kernel.eq_of_mem_attachments h.follows h.mapped hi (by decide) hatt
      h.mem_attachments
    refine ⟨h.last, h.card_attachments, fun j hj _ => ?_⟩
    rw [h.ram]
    exact if_neg (Nat.not_lt.mpr hj)
  have hrun := h.run.snoc trivial hst₃
  have hkeep₂ : RemovesMarked k (.shmrm 0#32) := trivial
  have hsteps : Run Kernel.step RemovesMarked M.boot
      [.shmat 0#32 0x11c000#32, .shmrm 0#32, .shmdt 0x11c000#32] v :=
    ((Run.single hkeep₁ hst₁).snoc hkeep₂ hst₂).snoc hkeep₃ hst₃
  have hrem := (removes_in_time_iff M _ v hrun).mpr hsteps _ _ [] u v rfl h.run hst₃ 0
    (by decide) h.marked
  refine ⟨M, u, v, h.run, fun j hj => ?_, hst₃, hrem.last h.card_attachments h.mem_attachments⟩
  rw [h.ram]
  exact if_pos hj

/-- **The only user of the segment exits**: its count is zero and nobody has
it attached, but it is still marked. -/
theorem not_removes_in_time_exit :
    ∃ u v, Run Kernel.step (fun _ _ => True) Machine.sample.boot
        [.shmat 0#32 0x11c000#32, .shmrm 0#32] u
      ∧ u.step (.exit 0) = some v ∧ u.Marked 0 ∧ (u.attachments 0).card = 1
      ∧ v.references 0 = 0 ∧ v.Marked 0 ∧ ¬ u.RemovesInTime (.exit 0) v 0 := by
  obtain ⟨-, u, -, -, h⟩ := exists_markedOnce Machine.sample
  obtain ⟨v, hst, -, hmm⟩ :=
    h.follows.exists_exit (by decide) ((h.counts.exit _).fit (by decide)) 0
  have hshm : v.mm.shmMem 0 = { u.mm.shmMem 0 with referencias := 0 } := by
    rw [hmm, (Mm.exitPages_dropped u.mm _).shmMem, if_pos (by decide)]
    have hcount := h.mapCount_eq
    have hlast := h.last
    show ShmMemStruct.mk _ ((u.mm.shmMem 0).referencias
      - (mapCount (u.mm.pagusrTable 1) sharedPages (u.mm.shmMem 0).shmMemFrameAddr : ℕ)) _ = _
    rw [hcount, hlast]
    rfl
  have hmark : v.Marked 0 := by
    rw [Kernel.Marked, hshm]
    exact h.marked
  refine ⟨u, v, h.run, hst, h.marked, h.card_attachments, by rw [Kernel.references, hshm], hmark,
    fun hrem => ?_⟩
  exact (hrem.last h.card_attachments ⟨_, h.mem_attachments⟩).unmarked hmark

end ZeOS.Practica
