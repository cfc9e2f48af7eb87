import ZeOS.Zeos.Boot

/-!
# The byte map of the frames, in a run

As long as no process exits, the byte map is that of the tables: a frame is
in use where a live process maps it, and a frame of a data page is mapped at
that page of that process only.

`sys_exit` gives back the frames of `NUM_PAG_DATA` pages from the page
`NUM_PAG_KERNEL + NUM_PAG_CODE` on. As in the copy of `sys_fork`, these are
not the data pages of this kernel: the frames of the first `NUM_PAG_CODE` of
them stay in use for good, and those of the code, all but the first one, are
marked as free under whoever else runs it. So neither half of the book
keeping survives the first exit.
-/

namespace ZeOS.Zeos

open Practica (freeFrames freeAll freeAll_apply markUsed bootPhys bootPhys_apply freeFrameMark)

namespace World

variable {ram : Location → Byte} {w w' : World} {c : Slot}

/-- **The byte map is right**: what a live process maps is in use, and what is
in use is mapped by a live process. -/
structure Accounted (w : World) : Prop where
  mapped : ∀ s ∈ w.tree.alive, ∀ f, w.kernel.Maps s f → w.kernel.mm.physMem f ≠ freeFrameMark
  owned : ∀ f, numPagKernel ≤ f → f < totalPages → w.kernel.mm.physMem f ≠ freeFrameMark →
    ∃ s ∈ w.tree.alive, w.kernel.Maps s f

/-- An exit has marked as free the frames of the data pages and no others. -/
def FreesData (w w' : World) : Prop := ∀ f,
  w.kernel.mm.physMem f ≠ freeFrameMark ∧ w'.kernel.mm.physMem f = freeFrameMark
    ↔ ∃ i < numPagData,
      getFrame (w.kernel.mm.pagusrTable w.kernel.current) (pagLogInitData + i) = f

/-- The frame of a data page is mapped there and nowhere else. -/
def OwnsData (w : World) : Prop :=
  ∀ s ∈ w.tree.alive, ∀ i < numPagData, ∀ u ∈ w.tree.alive, ∀ p < totalPages,
    (w.kernel.mm.pagusrTable u p).present = true →
    getFrame (w.kernel.mm.pagusrTable u) p
      = getFrame (w.kernel.mm.pagusrTable s) (pagLogInitData + i) →
    u = s ∧ p = pagLogInitData + i

/-- **What holds before the first exit.** -/
structure Kept (w : World) : Prop where
  sound : w.Sound
  accounted : w.Accounted
  own : w.OwnsData

/-- The data pages of a live process. -/
theorem Sound.dataPage (h : w.Sound) {s : Slot} (hs : s ∈ w.tree.alive) {i : ℕ}
    (hi : i < numPagData) :
    w.kernel.Maps s (getFrame (w.kernel.mm.pagusrTable s) (pagLogInitData + i))
      ∧ numPagKernel ≤ getFrame (w.kernel.mm.pagusrTable s) (pagLogInitData + i)
      ∧ getFrame (w.kernel.mm.pagusrTable s) (pagLogInitData + i) < totalPages := by
  have hlt : pagLogInitData + i < pagLogEnd :=
    (Nat.add_lt_add_left hi pagLogInitData).trans (by decide)
  obtain ⟨hpres, hframe⟩ := (h.tabled.user s hs).user _ (Nat.le_add_right numPagKernel i) hlt
  exact ⟨⟨_, hlt.trans (by decide), hpres, rfl⟩, hframe⟩

/-! ## A fork -/

section Fork

variable (h : w.Kept) (hcur : w.kernel.current ∈ w.tree.alive) (hdead : c ∉ w.tree.alive)
  (hlen : numPagData ≤ (freeFrames w.kernel.mm.physMem).length)
  (htree : w'.tree = w.tree.fork w.kernel.current c)
  (hmm : w'.kernel.mm = forkedMm w.kernel.mm w.kernel.current c)

include h hcur hdead hlen htree hmm

theorem Kept.accounted_fork : w'.Accounted := by
  have htabled := h.sound.tabled
  have hcc : w.kernel.current ≠ c := fun he => hdead (he ▸ hcur)
  obtain ⟨hpt, hphys, -⟩ := htabled.forkedMm_eq hcur hcc hlen
  have hused : ∀ f, w'.kernel.mm.physMem f ≠ freeFrameMark
      ↔ f ∈ takenFrames w.kernel.mm ∨ w.kernel.mm.physMem f ≠ freeFrameMark := by
    intro f
    rw [hmm, hphys, markUsed]
    split_ifs with hf
    · exact iff_of_true Nat.one_ne_zero (Or.inl hf)
    · exact (or_iff_right hf).symm
  have hmaps : ∀ s, s ≠ c → ∀ f, w'.kernel.Maps s f ↔ w.kernel.Maps s f := by
    intro s hs f
    rw [Kernel.Maps, Kernel.Maps, hmm, hpt, if_neg hs]
  refine ⟨fun s hs f hf => (hused f).mpr ?_, fun f h₁ h₂ hf => ?_⟩
  · rw [htree, Tree.mem_fork] at hs
    by_cases hsc : s = c
    · subst hsc
      obtain ⟨p, hp, hpres, rfl⟩ := hf
      rw [hmm] at hpres ⊢
      rcases htabled.page_fork hcur hcc hlen hpres with ⟨-, hk⟩ | ⟨i, hi, -, he⟩ | ⟨i, hi, hpi, he⟩
      · exact Or.inr (htabled.kernel _ hk.le)
      · rw [he]
        exact Or.inl (getD_takenFrames_mem hlen hi)
      · rw [he]
        refine Or.inr (h.accounted.mapped _ hcur _ ⟨p, hp, ?_, rfl⟩)
        refine ((htabled.user _ hcur).user p ?_ ?_).1
        · rw [hpi]
          exact le_trans (by decide) (Nat.le_add_right _ i)
        · rw [hpi]
          exact Nat.add_lt_add_left hi pagLogInitCode
    · exact Or.inr (h.accounted.mapped s (hs.resolve_left hsc) f ((hmaps s hsc f).mp hf))
  · rw [htree]
    rcases (hused f).mp hf with hf | hf
    · obtain ⟨i, hi, rfl⟩ := List.mem_iff_getElem.mp hf
      have hid : i < numPagData := length_takenFrames hlen ▸ hi
      obtain ⟨hpres, he⟩ := htabled.getFrame_fork_data hcur hcc hlen hid
      refine ⟨c, Tree.mem_fork.mpr (Or.inl rfl), pagLogInitData + i, ?_, ?_, ?_⟩
      · exact (Nat.add_lt_add_left hid pagLogInitData).trans (by decide)
      · rw [hmm]
        exact hpres
      · rw [hmm, he, List.getD_eq_getElem _ _ hi]
    · obtain ⟨s, hs, hsf⟩ := h.accounted.owned f h₁ h₂ hf
      exact ⟨s, Tree.mem_fork.mpr (Or.inr hs), (hmaps s (fun he => hdead (he ▸ hs)) f).mpr hsf⟩

theorem Kept.own_fork : w'.OwnsData := by
  have htabled := h.sound.tabled
  have hcc : w.kernel.current ≠ c := fun he => hdead (he ▸ hcur)
  have hpt := (htabled.forkedMm_eq hcur hcc hlen).1
  have hfree : ∀ i < numPagData, ∀ s ∈ w.tree.alive,
      ¬ w.kernel.Maps s ((takenFrames w.kernel.mm).getD i 0) := by
    intro i hi s hs hsf
    exact h.accounted.mapped s hs _ hsf (mem_takenFrames (getD_takenFrames_mem hlen hi)).1
  have hcode : ∀ i < numPagCode, numPagKernel ≤ pagLogInitCode + i
      ∧ pagLogInitCode + i < totalPages
      ∧ (w.kernel.mm.pagusrTable w.kernel.current (pagLogInitCode + i)).present = true := by
    intro i hi
    have hle : numPagKernel ≤ pagLogInitCode + i := le_trans (by decide) (Nat.le_add_right _ i)
    have hlt : pagLogInitCode + i < pagLogEnd := Nat.add_lt_add_left hi pagLogInitCode
    exact ⟨hle, hlt.trans (by decide), ((htabled.user _ hcur).user _ hle hlt).1⟩
  intro s hs i hi u hu p hp hpres he
  rw [htree, Tree.mem_fork] at hs hu
  rw [hmm] at hpres he
  by_cases hsc : s = c
  · subst hsc
    rw [(htabled.getFrame_fork_data hcur hcc hlen hi).2] at he
    by_cases hus : u = s
    · subst hus
      refine ⟨rfl, ?_⟩
      rcases htabled.page_fork hcur hcc hlen hpres with ⟨-, hk⟩ | ⟨j, hj, hpj, hf⟩ | ⟨j, hj, rfl, hf⟩
      · have hge := (mem_takenFrames (getD_takenFrames_mem hlen hi)).2.1
        exact absurd (he ▸ hk) (Nat.not_lt.mpr hge)
      · have hji : j = i := (List.getD_inj ((length_takenFrames hlen).symm ▸ hj)
          ((length_takenFrames hlen).symm ▸ hi) (nodup_takenFrames _)).mp (hf.symm.trans he)
        rw [hpj, hji]
      · obtain ⟨-, -, hin⟩ := hcode j hj
        exact absurd ⟨_, hp, hin, hf.symm.trans he⟩ (hfree i hi _ hcur)
    · rw [hpt, if_neg hus] at hpres he
      exact absurd ⟨p, hp, hpres, he⟩ (hfree i hi u (hu.resolve_left hus))
  · have hsa := hs.resolve_left hsc
    obtain ⟨hmap, hge, -⟩ := h.sound.dataPage hsa hi
    rw [hpt s, if_neg hsc] at he
    by_cases huc : u = c
    · subst huc
      rcases htabled.page_fork hcur hcc hlen hpres with ⟨-, hk⟩ | ⟨j, hj, -, hf⟩ | ⟨j, hj, rfl, hf⟩
      · exact absurd (he ▸ hk) (Nat.not_lt.mpr hge)
      · rw [← he, hf] at hmap
        exact absurd hmap (hfree j hj s hsa)
      · obtain ⟨hle, hlt, hin⟩ := hcode j hj
        have hpage := (h.own s hsa i hi _ hcur _ hlt hin (hf.symm.trans he)).2
        have hdata : pagLogInitData + i < pagLogInitCode := Nat.add_lt_add_left hi pagLogInitData
        exact absurd (hpage ▸ hdata) (Nat.not_lt.mpr (Nat.le_add_right _ j))
    · rw [hpt, if_neg huc] at hpres he
      exact h.own s hsa i hi u (hu.resolve_left huc) p hp hpres he

end Fork

/-! ## An exit -/

/-- **The first exit** leaves in use a frame that nobody maps any more. -/
theorem Kept.exit (h : w.Kept) (hst : w.step .exit = some w') :
    ¬ w'.Accounted ∧ ¬ w.FreesData w' := by
  obtain ⟨hidle, htree, hmm, -⟩ := h.sound.exited hst
  have hcur := h.sound.current_alive hidle
  obtain ⟨hmap, hge, hlt⟩ := h.sound.dataPage hcur (i := 0) (by decide)
  have hused := h.accounted.mapped _ hcur _ hmap
  set f := getFrame (w.kernel.mm.pagusrTable w.kernel.current) (pagLogInitData + 0) with hf
  have hkeep : w'.kernel.mm.physMem f ≠ freeFrameMark := by
    rw [hmm, Mm.exitPages_eq]
    show freeAll w.kernel.mm.physMem _ f ≠ _
    rw [freeAll_apply, if_neg]
    · exact hused
    · rintro ⟨hin, -, -⟩
      obtain ⟨p, hp, hpf⟩ := List.mem_map.mp hin
      obtain ⟨h₁, h₂⟩ := List.mem_range'_1.mp hp
      have hle : numPagKernel ≤ p := le_trans (by decide) h₁
      have hpres := ((h.sound.tabled.user _ hcur).user p hle h₂).1
      have hpage := (h.own _ hcur 0 (by decide) _ hcur p (h₂.trans (by decide)) hpres hpf).2
      rw [hpage] at h₁
      exact absurd h₁ (by decide)
  refine ⟨fun hacc => ?_, fun hfrees => hkeep ((hfrees f).mpr ⟨0, by decide, rfl⟩).2⟩
  obtain ⟨s, hs, p, hp, hpres, hpf⟩ := hacc.owned f hge hlt hkeep
  rw [htree, Tree.mem_exit] at hs
  rw [hmm, Mm.exitPages_eq] at hpres hpf
  have htable : (w.kernel.mm.setTable w.kernel.current (fun p =>
      if Mm.pagCopied ≤ p ∧ p < Mm.pagCopied + numPagData then Practica.PageTableEntry.zero
      else w.kernel.mm.pagusrTable w.kernel.current p)).pagusrTable s
        = w.kernel.mm.pagusrTable s := by
    rw [Practica.Mm.setTable_apply, if_neg hs.1]
  dsimp only at hpres hpf
  rw [htable] at hpres hpf
  exact hs.1 (h.own _ hcur 0 (by decide) s hs.2 p hp hpres hpf).1

/-! ## In a run -/

/-- **Any other event** keeps the books. -/
theorem Kept.step (h : w.Kept) {e : Event} (hst : w.step e = some w') (he : e ≠ .exit) :
    w'.Kept := by
  obtain ⟨hsound, heff, -⟩ := h.sound.step hst
  cases heff with
  | quiet _ htree hpt hphys =>
    have hmaps : ∀ s f, w'.kernel.Maps s f ↔ w.kernel.Maps s f := by
      intro s f
      rw [Kernel.Maps, Kernel.Maps, hpt]
    refine ⟨hsound, ⟨fun s hs f hf => ?_, fun f h₁ h₂ hf => ?_⟩, ?_⟩
    · rw [htree] at hs
      rw [hphys]
      exact h.accounted.mapped s hs f ((hmaps s f).mp hf)
    · rw [hphys] at hf
      obtain ⟨s, hs, hsf⟩ := h.accounted.owned f h₁ h₂ hf
      rw [htree]
      exact ⟨s, hs, (hmaps s f).mpr hsf⟩
    · unfold OwnsData
      rw [htree, hpt]
      exact h.own
  | fork _ hdead _ hlen _ htree hmm =>
    have hcur := h.sound.current_alive (current_ne hst rfl)
    exact ⟨hsound, h.accounted_fork hcur hdead hlen htree hmm,
      h.own_fork hcur hdead hlen htree hmm⟩
  | exit => exact absurd rfl he

/-- The pages of the initial process after boot: those of the kernel, and
those in its own frames. -/
theorem page_boot {p : ℕ} (hp : (bootTable p).present = true) :
    getFrame bootTable p < numPagKernel
      ∨ (numPagKernel ≤ p ∧ p < pagLogInitCode
        ∧ getFrame bootTable p = numPagKernel + 2 * (numPagCode + (p - pagLogInitData)))
      ∨ (pagLogInitCode ≤ p ∧ p < pagLogEnd
        ∧ getFrame bootTable p = numPagKernel + 2 * (p - pagLogInitCode)) := by
  rcases Nat.lt_or_ge p numPagKernel with hk | hk
  · exact Or.inl (userTable_bootTable.kernel p hk)
  · rcases Nat.lt_or_ge p pagLogEnd with hend | hend
    · have hframe := (getFrame_bootTable hk hend).2
      split_ifs at hframe with hd
      · exact Or.inr (Or.inl ⟨hk, hd, hframe⟩)
      · exact Or.inr (Or.inr ⟨Nat.not_lt.mp hd, hend, hframe⟩)
    · rw [userTable_bootTable.beyond p hend] at hp
      exact absurd hp Bool.false_ne_true

/-- **The books after boot.** -/
theorem kept_boot (ram : Location → Byte) : (boot ram).Kept := by
  obtain ⟨htree, -, -, hmm, -⟩ := boot_frame ram
  have hpt := boot_table ram
  have hphys : (boot ram).kernel.mm.physMem = bootPhys (numPagCode + numPagData) := by
    rw [hmm, setUserPages_loadedMm]
  have hused : ∀ f, (boot ram).kernel.mm.physMem f ≠ freeFrameMark
      ↔ f < numPagKernel ∨ f < numPagKernel + 2 * (numPagCode + numPagData) ∧ f % 2 = 0 := by
    intro f
    rw [hphys, bootPhys_apply (by decide)]
    split_ifs with hf
    · exact iff_of_true Nat.one_ne_zero hf
    · exact iff_of_false (fun hne => hne rfl) hf
  refine ⟨(sound_boot ram).1, ⟨fun s hs f hf => (hused f).mpr ?_, fun f h₁ h₂ hf => ?_⟩, ?_⟩
  · rw [htree, Finset.mem_singleton] at hs
    obtain ⟨p, -, hpres, rfl⟩ := hf
    rw [hs, hpt] at hpres ⊢
    rcases page_boot hpres with hk | ⟨-, hd, he⟩ | ⟨-, hc, he⟩
    · exact Or.inl hk
    · rw [he]
      simp only [pagLogInitCode, pagLogInitData, numPagKernel, numPagCode, numPagData] at hd ⊢
      omega
    · rw [he]
      simp only [pagLogInitCode, pagLogInitData, pagLogEnd, numPagKernel, numPagCode,
        numPagData] at hc ⊢
      omega
  · have hf' := ((hused f).mp hf).resolve_left (Nat.not_lt.mpr h₁)
    rw [htree]
    refine ⟨8, Finset.mem_singleton_self 8, ?_⟩
    rw [Kernel.Maps, hpt]
    -- the page a frame of the initial process is at
    set p := if f < numPagKernel + 2 * numPagCode then pagLogInitCode + (f - numPagKernel) / 2
      else pagLogInitData + ((f - numPagKernel) / 2 - numPagCode) with hp
    have hbounds : numPagKernel ≤ p ∧ p < pagLogEnd ∧ (if p < pagLogInitCode then
        numPagKernel + 2 * (numPagCode + (p - pagLogInitData))
        else numPagKernel + 2 * (p - pagLogInitCode)) = f := by
      rw [hp]
      simp only [pagLogInitCode, pagLogInitData, pagLogEnd, numPagKernel, numPagCode,
        numPagData] at h₁ hf' ⊢
      split_ifs <;> omega
    obtain ⟨hle, hlt, hval⟩ := hbounds
    obtain ⟨hpres, hframe⟩ := getFrame_bootTable hle hlt
    exact ⟨p, hlt.trans (by decide), hpres, hframe.trans hval⟩
  · intro s hs i hi u hu p _ hpres he
    rw [htree, Finset.mem_singleton] at hs hu
    rw [hu, hpt] at hpres he
    rw [hs, hpt] at he
    have hi' : pagLogInitData + i < pagLogInitCode := Nat.add_lt_add_left hi pagLogInitData
    rw [(getFrame_bootTable (Nat.le_add_right numPagKernel i) (hi'.trans (by decide))).2,
      if_pos hi'] at he
    refine ⟨hu.trans hs.symm, ?_⟩
    rcases page_boot hpres with hk | ⟨hge, hd, hpf⟩ | ⟨hge, hc, hpf⟩
    · rw [he] at hk
      exact absurd hk (Nat.not_lt.mpr (Nat.le_add_right _ _))
    · rw [hpf] at he
      simp only [pagLogInitData, numPagKernel] at he hge ⊢
      omega
    · rw [hpf] at he
      simp only [pagLogInitCode, pagLogInitData, pagLogEnd, numPagKernel, numPagCode,
        numPagData] at he hc hge hi
      omega

/-- **The byte map, in a run.** The books are right in all the states of a run
from boot exactly if no process exits in it, and so it is that each exit frees
the data pages. -/
theorem accounted_iff_exit_notMem {es : List Event}
    (hrun : Run World.step (fun _ _ => True) (boot ram) es w) :
    ((∀ bs cs u, es = bs ++ cs → Run World.step (fun _ _ => True) (boot ram) bs u →
        u.Accounted) ↔ .exit ∉ es)
      ∧ ((∀ bs cs u v, es = bs ++ .exit :: cs →
          Run World.step (fun _ _ => True) (boot ram) bs u → u.step .exit = some v →
          u.FreesData v) ↔ .exit ∉ es) := by
  have hkept := kept_boot ram
  have hno : ∀ {es : List Event} {u : World},
      Run World.step (fun _ e => True ∧ e ≠ .exit) (boot ram) es u ↔
        Run World.step (fun _ _ => True) (boot ram) es u ∧ .exit ∉ es := by
    intro es u
    rw [Run.and_iff]
    refine and_congr_right (fun _ => ⟨fun h hm => h _ hm rfl, fun h e he hx => h (hx ▸ he)⟩)
  constructor
  · rw [Run.always_iff_of_side (I := Kept) (J := Accounted) (Q := fun _ e => e ≠ .exit) ?_ ?_ hrun
      hkept hkept.accounted, hno]
    · exact and_iff_right hrun
    · intro u e v hu _ hv _ hst
      refine hu.step hst (fun he => ?_)
      subst he
      exact (hu.exit hst).1 hv
    · intro u e v hu _ _ hst
      constructor
      · rintro hv rfl
        exact (hu.exit hst).1 hv
      · exact fun he => (hu.step hst he).accounted
  · constructor
    · intro hall
      rcases hrun.exists_first_not (Q := fun _ e => e ≠ .exit) with
        hgood | ⟨bs, e, cs, u, v, rfl, hpre, -, he, hst, -⟩
      · exact (hno.mp hgood).2
      · obtain rfl := not_not.mp he
        have hu : u.Kept :=
          hpre.invariant (I := Kept) (fun _ _ _ hs hP hst => hs.step hst hP.2) hkept
        exact absurd (hall bs cs u v rfl (hno.mp hpre).1 hst) (hu.exit hst).2
    · rintro hnot bs cs u v rfl - -
      exact absurd (List.mem_append_right bs List.mem_cons_self) hnot

/-- **An exit frees the code** of whoever has it from the same process. -/
theorem Sound.exit_code (h : w.Sound) (hst : w.step .exit = some w') {s : Slot}
    (hs : s ≠ w.kernel.current) {i : ℕ} (hi : i < numPagCode)
    (hpres : (w.kernel.mm.pagusrTable s (pagLogInitCode + i)).present = true)
    (hsame : getFrame (w.kernel.mm.pagusrTable s) (pagLogInitCode + i)
      = getFrame (w.kernel.mm.pagusrTable w.kernel.current) (pagLogInitCode + i))
    (hne : getFrame (w.kernel.mm.pagusrTable s) (pagLogInitCode + i) ≠ numPagKernel) :
    ∃ f, w'.kernel.Maps s f ∧ w'.kernel.mm.physMem f = freeFrameMark := by
  obtain ⟨hidle, -, hmm, -⟩ := h.exited hst
  have hlt : pagLogInitCode + i < pagLogEnd := Nat.add_lt_add_left hi pagLogInitCode
  have hle : Mm.pagCopied ≤ pagLogInitCode + i := le_trans (by decide) (Nat.le_add_right _ i)
  have htable : w'.kernel.mm.pagusrTable s = w.kernel.mm.pagusrTable s := by
    rw [hmm, Mm.exitPages_eq]
    show (w.kernel.mm.setTable _ _).pagusrTable s = _
    rw [Practica.Mm.setTable_apply, if_neg hs]
  obtain ⟨-, hge, hmax⟩ := (h.tabled.user _ (h.current_alive hidle)).user _
    (le_trans (by decide) hle) hlt
  refine ⟨_, ⟨_, hlt.trans (by decide), htable ▸ hpres, rfl⟩, ?_⟩
  rw [htable, hmm, Mm.exitPages_eq]
  show freeAll w.kernel.mm.physMem _ _ = _
  rw [hsame] at hne ⊢
  rw [freeAll_apply, if_pos ⟨List.mem_map.mpr ⟨_, List.mem_range'_1.mpr ⟨hle, hlt⟩, rfl⟩,
    lt_of_le_of_ne hge hne.symm, hmax⟩]

/-- **The initial process forks and exits**: its child still maps a frame that
is marked as free, and a frame that nobody maps is not. -/
theorem exists_not_accounted :
    ∃ w w', Run World.step (fun _ _ => True) (boot (fun _ => 0)) [.fork] w
      ∧ w.step .exit = some w' ∧ ¬ w.FreesData w' ∧ ¬ w'.Accounted
      ∧ ∃ s ∈ w'.tree.alive, ∃ f, w'.kernel.Maps s f
        ∧ w'.kernel.mm.physMem f = freeFrameMark := by
  obtain ⟨htree₀, hcur₀, -, -, -, -, -, -, hnext₀⟩ := boot_frame (fun _ => 0)
  obtain ⟨w, hst, hpos, htree, hmm, hidle, hstuck, hmstuck, hsp⟩ := exists_fork_boot (fun _ => 0)
  have h := (kept_boot (fun _ => 0)).step hst nofun
  have hcur : w.kernel.current = 8 := hsp.current.trans hcur₀
  obtain ⟨l, hq, -⟩ := hsp.queued
  obtain ⟨w', hst', -⟩ :=
    h.sound.exists_exit hq (by rw [hcur, hidle]; decide) hstuck hmstuck
  obtain ⟨hfrees, hacc⟩ := h.exit hst'
  have hne : (8 : Slot) ≠ 7 := by decide
  obtain ⟨-, -, -, hlen, -⟩ := (kept_boot (fun _ => 0)).sound.forked hst hpos hnext₀
  have htabled := tabled_boot (fun _ => 0)
  have halive : (8 : Slot) ∈ (boot (fun _ => 0)).tree.alive := by
    rw [htree₀]
    exact Finset.mem_singleton_self 8
  have hparent : w.kernel.mm.pagusrTable 8 = bootTable := by
    rw [hmm, (htabled.forkedMm_eq halive hne hlen).1, if_neg hne, boot_table]
  obtain ⟨hpres, hsame⟩ :=
    htabled.getFrame_fork_code halive hne hlen (i := 1) (by decide)
  rw [← hmm] at hpres hsame
  rw [boot_table, (getFrame_bootTable (by decide) (by decide)).2] at hsame
  refine ⟨w, w', Run.single trivial hst, hst', hacc, hfrees, 7, ?_, ?_⟩
  · rw [(h.sound.exited hst').2.1, hcur, htree, Tree.mem_exit, Tree.mem_fork]
    exact ⟨hne.symm, Or.inl rfl⟩
  · refine h.sound.exit_code hst' (hcur ▸ hne.symm) (by decide : 1 < numPagCode) hpres ?_ ?_
    · rw [hcur, hparent, (getFrame_bootTable (by decide) (by decide)).2]
      exact hsame
    · rw [hsame]
      decide

/-- The frames are accounted for before and after a first fork, and no longer
when the initial process exits after it. -/
theorem accounted_iff_exit_notMem_fork :
    ∃ w v, Run World.step (fun _ _ => True) (boot (fun _ => 0)) [.fork] w
      ∧ (∀ bs cs u, [Event.fork] = bs ++ cs →
          Run World.step (fun _ _ => True) (boot (fun _ => 0)) bs u → u.Accounted)
      ∧ Run World.step (fun _ _ => True) (boot (fun _ => 0)) [.fork, .exit] v
      ∧ ¬ ∀ bs cs u u', [Event.fork, .exit] = bs ++ .exit :: cs →
          Run World.step (fun _ _ => True) (boot (fun _ => 0)) bs u → u.step .exit = some u' →
          u.FreesData u' := by
  obtain ⟨w, hst, -, -, -, hidle, hstuck, hmstuck, hsp⟩ := exists_fork_boot (fun _ => 0)
  have hrun : Run World.step (fun _ _ => True) (boot (fun _ => 0)) [.fork] w :=
    Run.single trivial hst
  have h := ((sound_boot (fun _ => 0)).1.step hst).1
  have hcur : w.kernel.current = 8 := hsp.current.trans (boot_frame (fun _ => 0)).2.1
  obtain ⟨l, hq, -⟩ := hsp.queued
  obtain ⟨v, hst', -⟩ := h.exists_exit hq (by rw [hcur, hidle]; decide) hstuck hmstuck
  have hrun' := hrun.snoc trivial hst'
  refine ⟨w, v, hrun, (accounted_iff_exit_notMem hrun).1.mpr (by decide), hrun', ?_⟩
  exact fun hall => absurd ((accounted_iff_exit_notMem hrun').2.mp hall) (by decide)

end World

end ZeOS.Zeos
