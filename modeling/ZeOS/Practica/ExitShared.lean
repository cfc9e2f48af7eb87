import ZeOS.Practica.Attach

/-!
# What an exit leaves attached

`sys_exit` walks over the shared region and counts a reference down for each
page that maps a segment. The entry it means to delete is that of the page,
but the loop over the segments has its own `i`, so that `del_ss_pag` is
called with the number of the segment: where a count reaches zero, one of the
first pages of the kernel is unmapped, and no page of the shared region ever
is.

So a process has all its memory detached by its exit exactly if it has none
attached.
-/

namespace ZeOS.Practica

namespace Mm

variable {m : Mm} {s : Slot} {p : ℕ}

/-! ## The entries deleted -/

/-- One round of the inner loop deletes the entry with the number of the
segment, if this was its last reference. -/
theorem dropReference_entry (frame i : ℕ) :
    (dropReference s frame m i).pagusrTable s p
      = if p = i ∧ (m.shmMem i).shmMemFrameAddr = frame ∧ (m.shmMem i).referencias = 1 then
          PageTableEntry.zero
        else m.pagusrTable s p := by
  have hone : (m.shmMem i).referencias - 1 = 0 ↔ (m.shmMem i).referencias = 1 := by omega
  unfold dropReference
  by_cases hf : (m.shmMem i).shmMemFrameAddr = frame
  · rw [if_pos hf]
    dsimp only
    split_ifs with hz hp hp
    · rw [setTable_apply, if_pos rfl, delSsPag_apply, if_pos hp.1]
    · rw [Function.update_self, hone] at hz
      rw [setTable_apply, if_pos rfl, delSsPag_apply, if_neg (fun hc => hp ⟨hc, hf, hz⟩)]
    · rw [Function.update_self, hone] at hz
      exact absurd hp.2.2 hz
    · rfl
  · rw [if_neg hf, if_neg (fun hc => hf hc.2.1)]

theorem foldl_dropReference_entry (frame : ℕ) {n : ℕ} (hn : n ≤ shmLength) :
    ((List.range n).foldl (dropReference s frame) m).pagusrTable s p
      = if p < n ∧ (m.shmMem p).shmMemFrameAddr = frame ∧ (m.shmMem p).referencias = 1 then
          PageTableEntry.zero
        else m.pagusrTable s p := by
  induction n with
  | zero => rw [if_neg (fun hc => Nat.not_lt_zero p hc.1)]; rfl
  | succ n ih =>
    have hd := dropped_foldl_dropReference (m := m) (s := s) frame (Nat.le_of_succ_le hn)
    -- segment `n` has not been looked at before
    have hn' : ((List.range n).foldl (dropReference s frame) m).shmMem n = m.shmMem n := by
      rw [hd.shmMem, if_pos (Nat.lt_of_succ_le hn), if_neg (fun hc => lt_irrefl n hc.1)]
      simp
    rw [List.range_succ, List.foldl_append, List.foldl_cons, List.foldl_nil, dropReference_entry,
      hn', ih (Nat.le_of_succ_le hn)]
    by_cases hp : p = n
    · subst hp
      rw [if_neg (fun hc : p < p ∧ _ => lt_irrefl p hc.1)]
      exact if_congr (and_congr_left fun _ => iff_of_true rfl (Nat.lt_succ_self p)) rfl rfl
    · rw [if_neg (fun hc => hp hc.1)]
      exact if_congr (and_congr_left fun _ => by omega) rfl rfl

/-- The second loop of `sys_exit` deletes the entries with the numbers of
the segments whose counts it takes to zero. -/
theorem foldl_releaseSharedPage_entry (pages : List ℕ) (hpages : ∀ q ∈ pages, shmLength ≤ q) :
    (pages.foldl (releaseSharedPage s) m).pagusrTable s p
      = if p < shmLength ∧ 0 < (m.shmMem p).referencias ∧ (m.shmMem p).referencias
            ≤ mapCount (m.pagusrTable s) pages (m.shmMem p).shmMemFrameAddr then
          PageTableEntry.zero
        else m.pagusrTable s p := by
  induction pages using List.reverseRecOn with
  | nil =>
    rw [if_neg]
    · rfl
    · rintro ⟨-, h₁, h₂⟩
      exact absurd (h₁.trans_le h₂) (lt_irrefl _)
  | append_singleton pages a ih =>
    have hbefore : ∀ q ∈ pages, shmLength ≤ q := fun q hq => hpages q (List.mem_append_left _ hq)
    have hd := dropped_foldl_releaseSharedPage (m := m) (s := s) pages hbefore
    rw [List.foldl_append, List.foldl_cons, List.foldl_nil]
    specialize ih hbefore
    set m₁ := pages.foldl (releaseSharedPage s) m with hm₁
    set f := (m.shmMem p).shmMemFrameAddr with hf
    have hframe : getFrame (m₁.pagusrTable s) a = getFrame (m.pagusrTable s) a := by
      rw [getFrame, hd.high a (hpages a (by simp))]
      rfl
    have hcount : mapCount (m.pagusrTable s) (pages ++ [a]) f
        = mapCount (m.pagusrTable s) pages f
          + if getFrame (m.pagusrTable s) a ≠ 0 ∧ getFrame (m.pagusrTable s) a = f then 1 else 0 := by
      rw [mapCount, List.countP_append, List.countP_singleton]
      simp [mapCount]
    have hseg : p < shmLength → m₁.shmMem p
        = { m.shmMem p with
            referencias := (m.shmMem p).referencias - mapCount (m.pagusrTable s) pages f } :=
      fun hp => by rw [hd.shmMem, if_pos hp]
    rw [releaseSharedPage, hframe, hcount]
    by_cases hz : getFrame (m.pagusrTable s) a = 0
    · rw [if_neg (not_not.mpr hz), ih, if_neg (not_and_of_not_left _ (not_not.mpr hz)), Nat.add_zero]
    · rw [if_pos hz, foldl_dropReference_entry _ le_rfl, ih]
      by_cases hp : p < shmLength
      · rw [hseg hp]
        dsimp only
        rw [← ite_or]
        refine if_congr ?_ rfl rfl
        by_cases hfa : f = getFrame (m.pagusrTable s) a
        · rw [if_pos ⟨hz, hfa.symm⟩]
          push_cast
          omega
        · rw [if_neg (fun hc => hfa hc.2.symm), Nat.add_zero]
          exact or_iff_right (fun hc => hfa hc.2.1)
      · rw [if_neg (fun hc => hp hc.1), if_neg (fun hc => hp hc.1), if_neg (fun hc => hp hc.1)]

/-- **The page table an exit leaves**: the data pages are gone, and so are
the entries with the numbers of the segments that have lost their last
reference. -/
theorem exitPages_entry (m : Mm) (s : Slot) (p : ℕ) :
    (m.exitPages s).pagusrTable s p
      = if p < shmLength ∧ 0 < (m.shmMem p).referencias ∧ (m.shmMem p).referencias
            ≤ mapCount (m.pagusrTable s) sharedPages (m.shmMem p).shmMemFrameAddr then
          PageTableEntry.zero
        else if pagLogInitData ≤ p ∧ p < pagLogInitShared then PageTableEntry.zero
        else m.pagusrTable s p := by
  have hexit : m.exitPages s = sharedPages.foldl (releaseSharedPage s)
      ((List.range numPagData).foldl (freeDataPage s) m) := rfl
  have hcount := mapCount_clearDataPages m s (m.shmMem p).shmMemFrameAddr
  have hshm : (m.clearDataPages s numPagData).shmMem = m.shmMem := rfl
  have htab : (m.clearDataPages s numPagData).pagusrTable s p
      = if pagLogInitData ≤ p ∧ p < pagLogInitShared then PageTableEntry.zero
        else m.pagusrTable s p := by
    rw [clearDataPages, setTable_apply, if_pos rfl]
  rw [hexit, foldl_freeDataPage,
    foldl_releaseSharedPage_entry _ (fun _ => shmLength_le_of_mem_sharedPages)]
  dsimp only
  rw [hshm, hcount, htab]

end Mm

/-! ## What is attached -/

namespace Kernel

/-- **An exit detaches all shared memory**: in the slot given up no page of
the shared region that mapped a segment is present any more, each count has
dropped by the number of pages that mapped its segment, and the kernel's
pages are mapped as they were. -/
structure DetachesAll (k k' : Kernel) : Prop where
  gone : ∀ p, pagLogInitShared ≤ p → p < totalPages → (k.currentPt p).present = true →
    (∃ i < shmLength, getFrame k.currentPt p = (k.mm.shmMem i).shmMemFrameAddr) →
    (k'.mm.pagusrTable k.currentPtSlot p).present = false
  dropped : ∀ i < shmLength, (k'.mm.shmMem i).referencias
    = (k.mm.shmMem i).referencias - (pagesOf k.currentPt (k.mm.shmMem i).shmMemFrameAddr).card
  kernel : ∀ p < numPagKernel, k'.mm.pagusrTable k.currentPtSlot p = k.currentPt p

/-- The current process has a segment attached somewhere. -/
def MapsSegment (k : Kernel) : Prop :=
  ∃ p < totalPages, (k.currentPt p).present = true ∧
    ∃ i < shmLength, getFrame k.currentPt p = (k.mm.shmMem i).shmMemFrameAddr

end Kernel

section Exit

variable {M : Machine} {k k' : Kernel} {a : Schedule} {s : Slot} {ebp : DWord} {p : ℕ}

/-- The memory after an exit. -/
theorem Kernel.Follows.step_exit (hf : k.Follows a) (hst : k.step (.exit ebp) = some k') :
    k'.mm = k.mm.exitPages a.current := by
  obtain ⟨a', -, ho, -⟩ := hf.step hst
  generalize k'.mm = m' at ho
  cases ho with
  | exit => rfl

/-- An exit is performed unless a count leaves an `int`. -/
theorem Kernel.Follows.exists_exit (hf : k.Follows a) (hbusy : a.current ≠ a.idle)
    (hfit : (k.mm.exitPages a.current).CountsFit) (ebp : DWord) :
    ∃ k', k.step (.exit ebp) = some k' ∧ k'.Follows (a.retire hbusy)
      ∧ k'.mm = k.mm.exitPages a.current := by
  have hdown := (Mm.exitPages_dropped k.mm a.current).stuck.trans hf.mm_down
  obtain ⟨k', hst, hf', hmm, -⟩ := Kernel.exists_exit hf hbusy hdown hfit ebp
  exact ⟨k', hst, hf', hmm⟩

/-- The entries of the slot given up, from the end of the data pages on. -/
theorem exit_entry_shared (hf : k.Follows a) (hst : k.step (.exit ebp) = some k')
    (hs : a.current = s) (hp : pagLogInitShared ≤ p) :
    k'.mm.pagusrTable s p = k.mm.pagusrTable s p := by
  subst hs
  have hnum : ¬ p < shmLength := Nat.not_lt.mpr (le_trans (by decide) hp)
  rw [hf.step_exit hst, Mm.exitPages_entry, if_neg (fun hc => hnum hc.1),
    if_neg (fun hc => Nat.not_lt.mpr hp hc.2)]

/-- The entries of the kernel's pages in the slot given up. -/
theorem exit_entry_kernel (hf : k.Follows a) (hst : k.step (.exit ebp) = some k')
    (hs : a.current = s) (hp : p < numPagKernel) :
    k'.mm.pagusrTable s p
      = if p < shmLength ∧ 0 < (k.mm.shmMem p).referencias ∧ (k.mm.shmMem p).referencias
            ≤ mapCount (k.mm.pagusrTable s) sharedPages (k.mm.shmMem p).shmMemFrameAddr then
          PageTableEntry.zero
        else k.mm.pagusrTable s p := by
  subst hs
  have hdata : ¬ (pagLogInitData ≤ p ∧ p < pagLogInitShared) :=
    fun hc => Nat.not_le.mpr (hp.trans (by decide)) hc.1
  rw [hf.step_exit hst, Mm.exitPages_entry, if_neg hdata]

/-- **An exit detaches all shared memory exactly if the process has none
attached.** -/
theorem exit_detaches_iff (M : Machine) (k : Kernel) (h : Reachable M k) (ebp : DWord)
    (k' : Kernel) (hst : k.step (.exit ebp) = some k') : k.DetachesAll k' ↔ ¬ k.MapsSegment := by
  obtain ⟨a, hf, hm⟩ := h.mapped
  obtain ⟨hslot, hpt⟩ := hf.currentPt rfl
  have hcount : ∀ i < shmLength, (k'.mm.shmMem i).referencias = (k.mm.shmMem i).referencias
      - mapCount k.currentPt sharedPages (k.mm.shmMem i).shmMemFrameAddr := fun i hi => by
    rw [hf.step_exit hst, (Mm.exitPages_dropped k.mm a.current).shmMem, if_pos hi, hpt]
    rfl
  have hcard : ∀ i < shmLength, (pagesOf k.currentPt (k.mm.shmMem i).shmMemFrameAddr).card
      = (lowPages k.currentPt (k.mm.shmMem i).shmMemFrameAddr).card
        + mapCount k.currentPt sharedPages (k.mm.shmMem i).shmMemFrameAddr := fun i hi => by
    rw [hpt, hm.shm_addr i hi]
    exact card_pagesOf (hm.shared a.current) (isShm_shmFrame hi).ne_zero
  constructor
  · rintro hdet ⟨p, hp, hpres, i, hi, hfr⟩
    rcases Nat.lt_or_ge p pagLogInitShared with hlow | hge
    · -- a page the loop does not come to
      have hmem : p ∈ lowPages k.currentPt (k.mm.shmMem i).shmMemFrameAddr :=
        mem_lowPages.mpr ⟨mem_pagesOf.mpr ⟨hp, hpres, hfr⟩, hlow⟩
      have hpos := Finset.card_pos.mpr ⟨p, hmem⟩
      have hdrop := hdet.dropped i hi
      rw [hcount i hi, hcard i hi] at hdrop
      omega
    · -- a page whose entry the loop leaves
      have hgone := hdet.gone p hge hp hpres ⟨i, hi, hfr⟩
      rw [exit_entry_shared hf hst hslot.symm hge, hslot, ← hpt, hpres] at hgone
      exact absurd hgone (by decide)
  · intro hno
    have hnone : ∀ i < shmLength, pagesOf k.currentPt (k.mm.shmMem i).shmMemFrameAddr = ∅ := by
      refine fun i hi => Finset.eq_empty_of_forall_notMem (fun p hp => hno ?_)
      obtain ⟨hlt, hpres, hfr⟩ := mem_pagesOf.mp hp
      exact ⟨p, hlt, hpres, i, hi, hfr⟩
    have hzero : ∀ i < shmLength,
        mapCount k.currentPt sharedPages (k.mm.shmMem i).shmMemFrameAddr = 0 := fun i hi => by
      have hsum := hcard i hi
      rw [hnone i hi, Finset.card_empty] at hsum
      omega
    refine ⟨fun p _ hp hpres hseg => absurd ⟨p, hp, hpres, hseg⟩ hno, fun i hi => ?_,
      fun p hp => ?_⟩
    · rw [hcount i hi, hzero i hi, hnone i hi, Finset.card_empty]
    · rw [hslot, exit_entry_kernel hf hst rfl hp, ← hpt]
      refine if_neg ?_
      rintro ⟨hi, hpos, hle⟩
      rw [hzero p hi] at hle
      exact absurd (hpos.trans_le hle) (lt_irrefl _)

/-- The booted process has nothing attached. -/
theorem exit_detaches_iff_boot : ∃ k, Machine.sample.boot.step (.exit 0) = some k
    ∧ Machine.sample.boot.DetachesAll k := by
  have hf := follows_boot Machine.sample
  obtain ⟨-, hpt⟩ := hf.currentPt (show _ = 1 from rfl)
  obtain ⟨k, hst, -, -⟩ := hf.exists_exit (by decide)
    (((countsWithin_boot Machine.sample).exit _).fit (by decide)) 0
  refine ⟨k, hst, (exit_detaches_iff Machine.sample _ ⟨[], Run.nil _⟩ 0 k hst).mpr ?_⟩
  rintro ⟨p, hp, hpres, i, hi, hfr⟩
  rw [hpt] at hpres hfr
  rw [(Mapped.boot Machine.sample).shm_addr i hi] at hfr
  have hmem := mem_pagesOf.mpr ⟨hp, hpres, hfr⟩
  rw [pagesOf_boot Machine.sample (user_boot.mpr rfl) hi] at hmem
  exact Finset.notMem_empty p hmem

/-- A page counts for the segment it maps. -/
theorem mapCount_pos {pt : PageTable} {pages : List ℕ} {f : ℕ} (hp : p ∈ pages)
    (hf : f ≠ 0) (hfr : getFrame pt p = f) : 0 < mapCount pt pages f := by
  rw [mapCount, List.countP_pos_iff]
  exact ⟨p, hp, decide_eq_true ⟨hfr ▸ hf, hfr⟩⟩

/-- **Segment 1 attached at the first page of the shared region** is still
there after the exit, which has unmapped page 1 of the kernel instead. -/
theorem not_exit_detaches_first :
    ∃ k k', Run Kernel.step (fun _ _ => True) Machine.sample.boot [.shmat 1#32 0x11c000#32] k
      ∧ k.step (.exit 0) = some k'
      ∧ (k'.mm.pagusrTable k.currentPtSlot 284).present = true
      ∧ (k.currentPt 1).present = true
      ∧ (k'.mm.pagusrTable k.currentPtSlot 1).present = false
      ∧ ¬ k.DetachesAll k' := by
  have hacc : Mm.ShmatAccepts 1#32 0x11c000#32 := ⟨by decide, by decide, by decide⟩
  have hpage : pageOf 0x11c000#32 = 284 := by decide
  have hge : pagLogInitShared ≤ pageOf 0x11c000#32 := by decide
  obtain ⟨k, hst, hf, hmm⟩ := (follows_boot Machine.sample).exists_attach (by decide)
    (show _ = 1 from rfl) hacc
    (show _ = 1 from rfl) (boot_firstFree Machine.sample hge (by decide))
    (((countsWithin_boot Machine.sample).attach 1 1 _).fit (by decide))
  have hcounts : k.mm.CountsWithin 1 :=
    hmm ▸ (countsWithin_boot Machine.sample).attach 1 1 _
  obtain ⟨k', hst', -, -⟩ := hf.exists_exit (by decide) ((hcounts.exit _).fit (by decide)) 0
  rw [hpage] at hmm
  obtain ⟨hslot, hpt⟩ := hf.currentPt (show _ = 1 from rfl)
  -- the page attached, and the count of its segment
  have hat : Mm.AttachedAt Machine.sample.boot.mm 1 1 284 k.mm := by
    rw [hmm]
    refine Mm.attachedAt_attach ?_
    rw [(Mapped.boot Machine.sample).shm_addr 1 (by decide)]
    decide
  have haddr : (k.mm.shmMem 1).shmMemFrameAddr
      = (Machine.sample.boot.mm.shmMem 1).shmMemFrameAddr := by
    rw [hmm]
    exact Mm.attach_addr _ 1 1 284 1
  have hleft : (k'.mm.pagusrTable 1 284).present = true := by
    rw [exit_entry_shared (s := 1) (p := 284) hf hst' rfl le_rfl]
    exact hat.present
  refine ⟨k, k', Run.single trivial hst, hst', ?_, ?_, ?_, fun hdet => ?_⟩
  · rw [hslot]
    exact hleft
  · rw [hpt, hat.other 1 1 (by decide), boot_mm]
    rfl
  · -- the segment loses its only reference
    have hone : (k.mm.shmMem 1).referencias = 1 := by
      rw [hat.references, boot_mm]
      rfl
    have hpos : 0 < mapCount (k.mm.pagusrTable 1) sharedPages (k.mm.shmMem 1).shmMemFrameAddr := by
      refine mapCount_pos (p := 284) (List.mem_range'_1.mpr ⟨le_rfl, by decide⟩) ?_
        (hat.frame.trans haddr.symm)
      rw [haddr, (Mapped.boot Machine.sample).shm_addr 1 (by decide)]
      decide
    rw [hslot, exit_entry_kernel (s := 1) hf hst' rfl (by decide), if_pos]
    · rfl
    · rw [hone]
      exact ⟨by decide, one_pos, by omega⟩
  · have hgone := hdet.gone 284 le_rfl (by decide) (hpt ▸ hat.present)
      ⟨1, by decide, by rw [hpt, hat.frame, haddr]⟩
    rw [hslot, hleft] at hgone
    exact absurd hgone (by decide)

end Exit

end ZeOS.Practica
