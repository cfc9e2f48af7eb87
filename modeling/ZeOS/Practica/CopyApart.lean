import ZeOS.Practica.Tlb

/-!
# Setting a page apart, on a machine with a TLB

The copying branch gives the page a fresh frame with the same bytes, but for
three things. The frame `alloc_frame` finds is one whose count is zero, and
since an exit zeroes the counts of frames that others still map, that is not
always a frame nobody maps. The page the handler borrows for the copy is
cleared if it was not present, which loses the `rw` bit an earlier fault has
set in its entry. And a translation of the borrowed page that the TLB still
has takes the copy to a segment, so that the fresh frame keeps the bytes it
had.

An earlier copy that went astray has left other bytes than the page tables
alone tell of. What is proved here is for any bytes in memory.
-/

namespace ZeOS.Practica

/-- The kernel with other bytes in memory. -/
def Kernel.withRam (k : Kernel) (ram : Location → Byte) : Kernel :=
  { k with mm := { k.mm with ram := ram } }

/-- The first frame that is free is the one the handler is given. -/
theorem freeFrames_of_allocFrame {phys : PhysMem} {f g : ℕ} (hcount : 2 ≤ phys f)
    (halloc : (allocFrame (Function.update phys f (phys f - 1))).1 = g) :
    ∃ gs, freeFrames phys = g :: gs := by
  rw [allocFrame_eq, freeFrames_countDown hcount] at halloc
  cases hfree : freeFrames phys with
  | nil =>
    rw [hfree] at halloc
    exact absurd halloc (by dsimp only; omega)
  | cons g' gs =>
    rw [hfree] at halloc
    exact ⟨gs, by rw [Int.natCast_inj.mp halloc]⟩

/-- The memory after a copy of frame `f` to the frame `target`, with `g`
mapped at the page. -/
def Kernel.copied (k : Kernel) (p f g target : ℕ) : Mm :=
  { k.mm.setTable k.currentPtSlot (privateTable k.currentPt p g) with
    physMem := Function.update (Function.update k.mm.physMem f (k.mm.physMem f - 1)) g 1
    ram := fun loc =>
      if loc.1 = target ∧ loc.2 < pageSize then k.mm.ram (f, loc.2) else k.mm.ram loc }

/-- **What such a copy sets apart.** -/
theorem Kernel.copiedApart_copied_iff (k : Kernel) {p f g : ℕ} (target : ℕ)
    (hshared : SharedRegion k.currentPt) (hp : p < pagLogInitShared) (hne : g ≠ f)
    (hlt : g < totalPages) :
    k.CopiedApart p f g (k.copied p f g target)
      ↔ k.Unmapped g ∧ k.SparesBorrowed
        ∧ (target = g ∨ ∀ o < pageSize, k.mm.ram (g, o) = k.mm.ram (f, o)) := by
  have hnb : paginaAUsar ≠ p := (ne_paginaAUsar hp).symm
  have hentry : (k.copied p f g target).pagusrTable k.currentPtSlot
      = privateTable k.currentPt p g :=
    (Mm.setTable_apply k.mm _ _ _).trans (if_pos rfl)
  have hram : ∀ loc, (k.copied p f g target).ram loc
      = if loc.1 = target ∧ loc.2 < pageSize then k.mm.ram (f, loc.2) else k.mm.ram loc :=
    fun _ => rfl
  constructor
  · intro h
    refine ⟨h.fresh.2, ?_, ?_⟩
    · have hb := h.entries paginaAUsar (by decide) hnb
      rw [hentry, privateTable, if_neg hnb, if_pos rfl] at hb
      exact (borrowed_eq_iff hshared).mp hb
    · -- a copy that went elsewhere leaves `g` what it was
      by_cases htarget : target = g
      · exact Or.inl htarget
      · refine Or.inr fun o ho => ?_
        have hg := (h.contents o ho).1
        rwa [hram, if_neg (fun hc => htarget hc.1.symm)] at hg
  · rintro ⟨hfresh, hspares, hcontents⟩
    refine ⟨?_, ⟨hne, hfresh⟩, fun o ho => ⟨?_, ?_⟩, ?_, fun q _ hq => ?_, fun s hs => ?_⟩
    · rw [hentry, getFrame, privateTable, if_pos rfl]
      exact ⟨rfl, rfl, rfl, frameField_natCast hlt⟩
    · rw [hram]
      split_ifs with hx
      · rfl
      · exact hcontents.resolve_left (fun he => hx ⟨he.symm, ho⟩) o ho
    · rw [hram]
      split_ifs <;> rfl
    · show Function.update _ g 1 f = _ ∧ Function.update _ g 1 g = 1
      rw [Function.update_self, Function.update_of_ne hne.symm, Function.update_self]
      exact ⟨rfl, rfl⟩
    · rw [hentry, privateTable, if_neg hq]
      by_cases hb : q = paginaAUsar
      · rw [if_pos hb, hb]
        exact (borrowed_eq_iff hshared).mpr hspares
      · rw [if_neg hb]
    · exact (Mm.setTable_apply k.mm _ _ _).trans (if_neg hs)

namespace Cached

variable {M : Machine} {t : Cached} {a : Schedule} {cr2 : DWord} {tlb : Tlb} {f g : ℕ}

/-- **The copying branch through one TLB.** -/
theorem Coherent.copiedApart_iff (hc : t.Coherent) (hk : t.kernel.Follows a)
    (hm : Mapped M a t.kernel.mm) (ram : Location → Byte) (hp : pageOf cr2 < pagLogInitShared)
    (hpres : (t.kernel.currentPt (pageOf cr2)).present = true)
    (hf : getFrame t.kernel.currentPt (pageOf cr2) = f) (hlt : f < totalPages)
    (hcount : 2 ≤ t.kernel.mm.physMem f)
    (halloc : (allocFrame (Function.update t.kernel.mm.physMem f
      (t.kernel.mm.physMem f - 1))).1 = g) (hallows : t.Allows cr2 tlb) :
    (∃ m', (t.kernel.withRam ram).mm.pagefaultRoutineBy tlb t.kernel.sched.cr3
          t.kernel.currentPtSlot cr2 = some m'
        ∧ (t.kernel.withRam ram).CopiedApart (pageOf cr2) f g m')
      ↔ t.kernel.Unmapped g ∧ t.kernel.SparesBorrowed
        ∧ ((tlb paginaAUsar).getD g = g ∨ ∀ o < pageSize, ram (g, o) = ram (f, o)) := by
  have hslot := Kernel.currentPtSlot_eq hk.threads
  have hpt := Kernel.currentPt_eq hk.threads
  -- the frame found
  obtain ⟨gs, hfree⟩ := freeFrames_of_allocFrame hcount halloc
  obtain ⟨hscan, hzero⟩ := mem_freeFrames.mp (hfree ▸ List.mem_cons_self)
  have hne : g ≠ f := by
    intro he
    rw [← he, hzero] at hcount
    exact absurd hcount (by decide)
  have hglt : g < totalPages := (mem_frameScan.mp hscan).2.1
  -- the handler takes the copying branch
  have hlent : ∀ fr, tlb paginaAUsar = some fr → numPagKernel ≤ fr := fun fr htlb =>
    (show 256 ≤ 312 by decide).trans (hc.isShm hk hm (hallows.borrowed hp htlb)).bounds.1
  have hcopied : (t.kernel.withRam ram).mm.pagefaultRoutineBy tlb t.kernel.sched.cr3
      t.kernel.currentPtSlot cr2
      = some ((t.kernel.withRam ram).copied (pageOf cr2) f g ((tlb paginaAUsar).getD g)) := by
    rw [hslot, hk.threads.cr3_eq]
    rw [hpt] at hpres hf
    subst hf
    have hbranch : (t.kernel.withRam ram).mm.pagefaultRoutineBy tlb a.current a.current cr2
        = some ((t.kernel.withRam ram).mm.copyOnWriteBy tlb a.current a.current (pageOf cr2)) :=
      Mm.pagefaultRoutineBy_of_shared (hp.trans (by decide)) hlt hcount
    have hcopy := Mm.copyOnWriteBy_of_cons (m := (t.kernel.withRam ram).mm) hp hpres
      (hallows.keepsSource hc hk) hcount hfree hlent
    rw [hbranch, hcopy, Kernel.copied]
    refine congrArg some (Mm.ext rfl ?_ rfl rfl rfl)
    show (t.kernel.mm.setTable a.current _).pagusrTable
      = (t.kernel.mm.setTable t.kernel.currentPtSlot
          (privateTable t.kernel.currentPt _ _)).pagusrTable
    rw [hslot, hpt]
    rfl
  have happlied := Kernel.copiedApart_copied_iff (t.kernel.withRam ram)
    ((tlb paginaAUsar).getD g) (hpt ▸ hm.shared a.current) hp hne hglt
  rw [hcopied]
  constructor
  · rintro ⟨m', hm', h⟩
    obtain rfl := Option.some_inj.mp hm'
    exact happlied.mp h
  · intro h
    exact ⟨_, rfl, happlied.mpr h⟩

end Cached

/-- **When a write to a shared page sets it apart**, whatever the TLB holds:
exactly where the frame that is found is mapped by no live process, the
borrowed page is present or clear, and it has not been accessed since the
last flush (or the frame happens to hold the bytes already). -/
theorem copied_apart_iff (M : Machine) (es : List Event) (t : Cached)
    (h : Run Cached.step (fun _ _ => True) (Cached.boot M) es t) (ram : Location → Byte)
    (cr2 : DWord) (f g : ℕ) (hp : pageOf cr2 < pagLogInitShared)
    (hpres : (t.kernel.currentPt (pageOf cr2)).present = true)
    (hf : getFrame t.kernel.currentPt (pageOf cr2) = f) (hlt : f < totalPages)
    (hcount : 2 ≤ t.kernel.mm.physMem f)
    (halloc : (allocFrame (Function.update t.kernel.mm.physMem f
      (t.kernel.mm.physMem f - 1))).1 = g) :
    (∀ tlb, t.Allows cr2 tlb →
        ∃ m', (t.kernel.withRam ram).mm.pagefaultRoutineBy tlb t.kernel.sched.cr3
            t.kernel.currentPtSlot cr2 = some m'
          ∧ (t.kernel.withRam ram).CopiedApart (pageOf cr2) f g m')
      ↔ t.kernel.Unmapped g ∧ t.kernel.SparesBorrowed
        ∧ ((∀ fr, (paginaAUsar, fr) ∉ t.accessed) ∨ ∀ o < pageSize, ram (g, o) = ram (f, o)) := by
  obtain ⟨hc, a, hk, hm⟩ := Cached.coherent_of_run h
  have hone : ∀ {tlb}, t.Allows cr2 tlb → _ := fun hallows =>
    hc.copiedApart_iff hk hm ram hp hpres hf hlt hcount halloc hallows
  constructor
  · intro hall
    -- an empty TLB
    have hempty : t.Allows cr2 (fun _ => none) := fun _ _ hn => absurd hn (by simp)
    obtain ⟨hfresh, hspares, -⟩ := (hone hempty).mp (hall _ hempty)
    refine ⟨hfresh, hspares, ?_⟩
    by_cases hx : ∃ fr, (paginaAUsar, fr) ∈ t.accessed
    · obtain ⟨fr, hx⟩ := hx
      have hsingle : t.Allows cr2 _ := Cached.allows_single hx
      obtain ⟨-, -, hstale⟩ := (hone hsingle).mp (hall _ hsingle)
      refine Or.inr (hstale.resolve_left fun he => ?_)
      -- a segment is not the frame that was found
      obtain ⟨gs, hfree⟩ := freeFrames_of_allocFrame hcount halloc
      have hzero := (mem_freeFrames.mp (hfree ▸ List.mem_cons_self)).2
      have hused := hm.fixed_used fr (hc.isShm hk hm hx).fixed
      rw [Function.update_self] at he
      rw [show fr = g from he, hzero] at hused
      exact absurd hused (by decide)
    · exact Or.inl (not_exists.mp hx)
  · rintro ⟨hfresh, hspares, hcopy⟩ tlb hallows
    refine (hone hallows).mpr ⟨hfresh, hspares, ?_⟩
    rcases hcopy with hunused | hsame
    · left
      cases htlb : tlb paginaAUsar with
      | none => rfl
      | some fr => exact absurd (hallows.borrowed hp htlb) (hunused fr)
    · exact Or.inr hsame

/-- The first process writes to its data after it has forked. -/
theorem copied_apart_iff_fork :
    ∃ t f g, Run Cached.step (fun _ _ => True) (Cached.boot Machine.sample) [.fork 0] t
      ∧ ∀ ram tlb, t.Allows 0x108000#32 tlb →
        ∃ m', (t.kernel.withRam ram).mm.pagefaultRoutineBy tlb t.kernel.sched.cr3
            t.kernel.currentPtSlot 0x108000#32 = some m'
          ∧ (t.kernel.withRam ram).CopiedApart (pageOf 0x108000#32) f g m' := by
  obtain ⟨t, hrun, h, hro, hcount, hzero, hunused⟩ := Cached.exists_fork
  have hpt : t.kernel.currentPt = t.kernel.mm.pagusrTable 1 :=
    Kernel.currentPt_eq h.follows.threads
  obtain ⟨g, gs, hfree⟩ : ∃ g gs, freeFrames t.kernel.mm.physMem = g :: gs :=
    List.exists_cons_of_length_pos (by rw [h.total]; decide)
  have halloc := allocFrame_of_cons ((freeFrames_countDown hcount).trans hfree)
  have hlt := h.first_frame_lt
  rw [← hpt] at hro hcount hzero halloc hlt
  refine ⟨t, _, g, hrun, fun ram => (copied_apart_iff Machine.sample [.fork 0] t hrun ram
    0x108000#32 _ g (by decide) hro.2.2.1 rfl hlt hcount (congrArg Prod.fst halloc)).mpr ?_⟩
  exact ⟨Kernel.unmapped_of_inOrder h.follows h.mapped h.inOrder (hfree ▸ List.mem_cons_self),
    Or.inr (hzero _ (by decide)), Or.inl hunused⟩

/-- **The copy goes to a frame that is somebody else's**: the second child
writes to its first data page and is given the frame behind the
grandchild's. -/
theorem not_copied_apart_freed :
    ∃ es t f m', Run Cached.step (fun _ _ => True) (Cached.boot Machine.sample) es t
      ∧ IsReadOnlyData t.kernel.currentPt (pageOf 0x108000#32)
      ∧ getFrame t.kernel.currentPt (pageOf 0x108000#32) = f ∧ f < totalPages
      ∧ t.kernel.mm.physMem f = 2
      ∧ (allocFrame (Function.update t.kernel.mm.physMem f (t.kernel.mm.physMem f - 1))).1 = 272
      ∧ t.Allows 0x108000#32 (fun _ => none)
      ∧ t.kernel.mm.pagefaultRoutineBy (fun _ => none) t.kernel.sched.cr3
          t.kernel.currentPtSlot 0x108000#32 = some m'
      ∧ ¬ t.kernel.CopiedApart (pageOf 0x108000#32) f 272 m' := by
  obtain ⟨k, f, ⟨es, hreach⟩, hk, hm, hf, hlt, hcount, hrw, hhead, hframe⟩ :=
    exists_freed Machine.sample
  -- the same run, with what the TLB may keep beside it
  obtain ⟨t, rfl, hrun⟩ := Cached.exists_of_run hreach
  have hpage : pageOf 0x108000#32 = dataPage 0 := by decide
  have hpt : t.kernel.currentPt = t.kernel.mm.pagusrTable 3 := Kernel.currentPt_eq hk.threads
  have hslot : t.kernel.currentPtSlot = 3 := Kernel.currentPtSlot_eq hk.threads
  obtain ⟨h₁, h₂⟩ := dataPage_bounds 0
  have hpres := ((hm.user_table 3 (by decide)).data _ h₁ h₂).1
  -- the handler is given the first free frame
  obtain ⟨gs, hfree⟩ : ∃ gs, freeFrames t.kernel.mm.physMem = 272 :: gs :=
    List.head?_eq_some_iff.mp (hframe ▸ hhead)
  have halloc := allocFrame_of_cons ((freeFrames_countDown hcount.ge).trans hfree)
  have hframe' : getFrame (t.kernel.mm.pagusrTable 3) (pageOf 0x108000#32) = f := by
    rw [hpage, hf]
  have he : t.kernel.mm.pagefaultRoutineBy (fun _ => none) t.kernel.sched.cr3
      t.kernel.currentPtSlot 0x108000#32
        = some (t.kernel.mm.copyOnWriteBy (fun _ => none) t.kernel.sched.cr3 3
          (pageOf 0x108000#32)) := by
    rw [hslot]
    exact Mm.pagefaultRoutineBy_of_shared (by decide) (hframe' ▸ hlt) (hframe' ▸ hcount.ge)
  refine ⟨es, t, f, _, hrun, ?_, ?_, hlt, hcount, congrArg Prod.fst halloc,
    fun _ _ hn => absurd hn (by simp), he, fun hc => ?_⟩
  · rw [hpt, hpage]
    exact ⟨h₁, h₂, hpres, hrw⟩
  · rw [hpt, hpage, hf]
  · -- which is behind a page of the grandchild
    have hlive : reuseSchedule.Live 4 := by decide
    refine hc.fresh.2 4 ((Kernel.live_iff hk.threads 4).mpr hlive) (dataPage 0) (dataPage_lt 0)
      ?_ ?_
    · rw [Kernel.ptOf_eq hk.threads hlive]
      exact ((hm.user_table 4 (by decide)).data _ h₁ h₂).1
    · rw [Kernel.ptOf_eq hk.threads hlive]
      exact hframe

end ZeOS.Practica
