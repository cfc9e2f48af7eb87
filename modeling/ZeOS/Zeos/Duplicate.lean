import ZeOS.Zeos.Boot

/-!
# What the child of a fork has in memory

`sys_fork` maps a fresh frame at each data page of the child. It then copies
`NUM_PAG_DATA` pages from the page `NUM_PAG_KERNEL + NUM_PAG_CODE` on, where
the data would be if the code came first. In this kernel it is the data that
comes first: the copy leaves out the first `NUM_PAG_CODE` data pages, and goes
on over the code, which parent and child share. The child finds in the pages
left out what the frames held before.

The frames themselves are fresh only in so far as the byte map is right, and
`sys_exit` marks frames of the code as free while other processes map them.
`duplicated_iff` says what the two come to.
-/

namespace ZeOS.Zeos

open Practica (frameScan)

variable {ram : Location → Byte} {w w' : World} {c : Slot}

/-- The table of the idle task stays that of boot. -/
theorem Reachable.idle_table (h : Reachable ram w) :
    w.kernel.mm.pagusrTable w.kernel.idleTask = initTablePages := by
  obtain ⟨es, hrun⟩ := h
  refine (hrun.invariant
    (I := fun u => u.Sound ∧ u.kernel.mm.pagusrTable u.kernel.idleTask = initTablePages)
    ?_ ⟨(World.sound_boot ram).1, ?_⟩).2
  · rintro u e v ⟨hu, htable⟩ - hst
    obtain ⟨hv, heff, hidle⟩ := hu.step hst
    refine ⟨hv, ?_⟩
    rw [hidle]
    cases heff with
    | quiet _ _ hpt => rw [hpt, htable]
    | @fork c hnext hdead hci hlen _ _ hmm =>
      have hcur := hu.current_alive (World.current_ne hst rfl)
      have hcc : u.kernel.current ≠ c := fun he => hdead (he ▸ hcur)
      rw [hmm, (hu.tabled.forkedMm_eq hcur hcc hlen).1, if_neg hci.symm, htable]
    | exit hi _ hmm =>
      rw [hmm, Mm.exitPages_eq]
      show (u.kernel.mm.setTable _ _).pagusrTable _ = _
      rw [Practica.Mm.setTable_apply, if_neg hi.symm, htable]
  · obtain ⟨-, -, hidle, hmm, -⟩ := World.boot_frame ram
    rw [hidle, hmm, setUserPages_loadedMm]
    show ((loadedMm ram).setTable 8 bootTable).pagusrTable 9 = _
    rw [Practica.Mm.setTable_apply, if_neg (by decide)]
    rfl

/-- The idle task maps frames of the kernel only. -/
theorem Reachable.idle_maps (h : Reachable ram w) {f : ℕ}
    (hf : w.kernel.Maps w.kernel.idleTask f) : f < numPagKernel := by
  obtain ⟨p, hp, hpres, rfl⟩ := hf
  rw [h.idle_table] at hpres ⊢
  have hin : 1 ≤ p ∧ p < numPagKernel := by
    by_contra hc
    rw [initTablePages, if_neg hc] at hpres
    exact Bool.false_ne_true hpres
  rw [getFrame, initTablePages, if_pos hin, BitVec.toNat_ofNat]
  exact lt_of_le_of_lt (Nat.mod_le _ _) hin.2

namespace World

/-- **The child has a copy of the parent's memory**, and the parent what it
had. -/
structure Duplicated (w w' : World) (c : Slot) : Prop where
  /-- The data pages of the child hold what those of the parent held. -/
  data : ∀ i < numPagData,
    (w'.kernel.mm.pagusrTable c (pagLogInitData + i)).present = true
      ∧ ∀ o < pageSize,
        w'.kernel.mm.ram (getFrame (w'.kernel.mm.pagusrTable c) (pagLogInitData + i), o)
          = w.kernel.mm.ram
            (getFrame (w.kernel.mm.pagusrTable w.kernel.current) (pagLogInitData + i), o)
  /-- They are in frames that neither another process nor the idle task maps. -/
  own : ∀ i < numPagData, ∀ s, s ∈ w'.tree.alive ∨ s = w'.kernel.idleTask → s ≠ c →
    ¬ w'.kernel.Maps s (getFrame (w'.kernel.mm.pagusrTable c) (pagLogInitData + i))
  code : ∀ i < numPagCode,
    (w'.kernel.mm.pagusrTable c (pagLogInitCode + i)).present = true
      ∧ getFrame (w'.kernel.mm.pagusrTable c) (pagLogInitCode + i)
        = getFrame (w.kernel.mm.pagusrTable w.kernel.current) (pagLogInitCode + i)
  table : w'.kernel.mm.pagusrTable w.kernel.current = w.kernel.mm.pagusrTable w.kernel.current
  memory : ∀ f, w.kernel.Maps w.kernel.current f → ∀ o,
    w'.kernel.mm.ram (f, o) = w.kernel.mm.ram (f, o)

/-- The first `NUM_PAG_CODE` frames that are about to be allocated happen to
hold what the first data pages of the current process hold. -/
def Prefilled (w : World) : Prop := ∀ i < numPagCode, ∀ o < pageSize,
  w.kernel.mm.ram ((takenFrames w.kernel.mm).getD i 0, o)
    = w.kernel.mm.ram
      (getFrame (w.kernel.mm.pagusrTable w.kernel.current) (pagLogInitData + i), o)

/-- No live process maps one of the frames that are about to be allocated. -/
def Unmapped (w : World) : Prop :=
  ∀ f ∈ takenFrames w.kernel.mm, ∀ s ∈ w.tree.alive, ¬ w.kernel.Maps s f

section Fork

variable (h : Reachable ram w) (hst : w.step .fork = some w') (hpos : 0 < w.kernel.sysFork.1)
  (hnext : w.kernel.nextFree = some c)

include h hst hpos hnext

/-- The tables after a fork: the child's data pages are in the frames taken,
and the other slots have what they had. -/
theorem tables_fork :
    (∀ i < numPagData, (w'.kernel.mm.pagusrTable c (pagLogInitData + i)).present = true
        ∧ getFrame (w'.kernel.mm.pagusrTable c) (pagLogInitData + i)
          = (takenFrames w.kernel.mm).getD i 0)
      ∧ (∀ s, s ≠ c → w'.kernel.mm.pagusrTable s = w.kernel.mm.pagusrTable s)
      ∧ ∀ s, s ≠ c → ∀ f, w'.kernel.Maps s f ↔ w.kernel.Maps s f := by
  obtain ⟨hcur, hcc, -, hlen, -, hmm⟩ := h.sound.forked hst hpos hnext
  have htable : ∀ s, s ≠ c → w'.kernel.mm.pagusrTable s = w.kernel.mm.pagusrTable s := by
    intro s hs
    rw [hmm, (h.sound.tabled.forkedMm_eq hcur hcc hlen).1, if_neg hs]
  refine ⟨fun i hi => ?_, htable, fun s hs f => ?_⟩
  · rw [hmm]
    exact h.sound.tabled.getFrame_fork_data hcur hcc hlen hi
  · rw [Kernel.Maps, Kernel.Maps, htable s hs]

/-- The pages left out have to be right beforehand, and so has the byte
map. -/
theorem Duplicated.prefilled (hdup : w.Duplicated w' c) : w.Prefilled ∧ w.Unmapped := by
  obtain ⟨hcur, hcc, hdead, hlen, htree, hmm⟩ := h.sound.forked hst hpos hnext
  obtain ⟨hframe, -, hmaps⟩ := tables_fork h hst hpos hnext
  refine ⟨fun i hi o ho => ?_, fun f hf s hs hsf => ?_⟩
  · have hid : i < numPagData := hi.trans (by decide)
    rw [← (hdup.data i hid).2 o ho, (hframe i hid).2, hmm]
    exact (h.sound.tabled.ram_fork_leftOut hcur hcc hlen hi).symm
  · have hsc : s ≠ c := fun he => hdead (he ▸ hs)
    obtain ⟨i, hi, rfl⟩ := List.mem_iff_getElem.mp hf
    have hid : i < numPagData := length_takenFrames hlen ▸ hi
    refine hdup.own i hid s (Or.inl ?_) hsc ((hmaps s hsc _).mpr ?_)
    · rw [htree, Tree.mem_fork]
      exact Or.inr hs
    · rw [(hframe i hid).2, List.getD_eq_getElem _ _ hi]
      exact hsf

/-- With that the copy is one of everything. -/
theorem Unmapped.duplicated (hun : w.Unmapped) (hpre : w.Prefilled) : w.Duplicated w' c := by
  have htabled := h.sound.tabled
  obtain ⟨hcur, hcc, hdead, hlen, htree, hmm⟩ := h.sound.forked hst hpos hnext
  obtain ⟨hframe, htable, hmaps⟩ := tables_fork h hst hpos hnext
  have hmem := fun i (hi : i < numPagData) => getD_takenFrames_mem hlen hi
  have hnot : ∀ f, w.kernel.Maps w.kernel.current f → f ∉ takenFrames w.kernel.mm :=
    fun f hf hmf => hun f hmf _ hcur hf
  refine ⟨fun i hi => ⟨(hframe i hi).1, fun o ho => ?_⟩, fun i hi s hs hsc hsf => ?_,
    fun i hi => ?_, htable _ hcc, fun f hf o => ?_⟩
  · rw [(hframe i hi).2, hmm]
    by_cases hic : i < numPagCode
    · rw [htabled.ram_fork_leftOut hcur hcc hlen hic]
      exact hpre i hic o ho
    · refine htabled.ram_fork_data hcur hcc hlen (fun p h₁ h₂ => hnot _ ?_)
        (Nat.not_lt.mp hic) hi ho
      exact ⟨p, h₂.trans (by decide), ((htabled.user _ hcur).user p h₁ h₂).1, rfl⟩
  · rw [(hframe i hi).2, hmaps s hsc] at hsf
    rcases hs with hs | hs
    · rw [htree, Tree.mem_fork] at hs
      exact hun _ (hmem i hi) s (hs.resolve_left hsc) hsf
    · rw [hs, (h.sound.step hst).2.2] at hsf
      exact Nat.not_lt.mpr (mem_takenFrames (hmem i hi)).2.1 (h.idle_maps hsf)
  · rw [hmm]
    exact htabled.getFrame_fork_code hcur hcc hlen hi
  · rw [hmm]
    refine htabled.ram_fork_other hcur hcc hlen (fun i _ hi he => ?_)
    exact hnot f hf (he ▸ hmem i hi)

/-- **What a fork duplicates.** The child has a copy of the parent's memory
exactly if the frames it gets are mapped by no process and those of the pages
left out hold the right bytes already. -/
theorem duplicated_iff_prefilled : w.Duplicated w' c ↔ w.Prefilled ∧ w.Unmapped :=
  ⟨fun hdup => hdup.prefilled h hst hpos hnext,
    fun hw => hw.2.duplicated h hst hpos hnext hw.1⟩

end Fork

/-- **The first data page of the initial process starts with a 1** that its
child does not see. -/
theorem exists_not_duplicated :
    ∃ w, (boot (fun loc => if loc = (272, 0) then 1 else 0)).step .fork = some w
      ∧ 0 < (boot (fun loc => if loc = (272, 0) then 1 else 0)).kernel.sysFork.1
      ∧ (boot (fun loc => if loc = (272, 0) then 1 else 0)).kernel.nextFree = some 7
      ∧ ¬ (boot (fun loc => if loc = (272, 0) then 1 else 0)).Duplicated w 7 := by
  set ram : Location → Byte := fun loc => if loc = (272, 0) then 1 else 0 with hram
  obtain ⟨-, hcur, -, hmm, -, -, -, -, hnext⟩ := boot_frame ram
  obtain ⟨w, hst, hpos, -⟩ := exists_fork_boot ram
  refine ⟨w, hst, hpos, hnext, fun hdup => ?_⟩
  have hpre := (hdup.prefilled ⟨[], Run.nil _⟩ hst hpos hnext).1 0 (by decide) 0 (by decide)
  have htaken : (takenFrames (boot ram).kernel.mm).getD 0 0 = 312 := by
    rw [takenFrames, freeFrames_boot]
    rfl
  have hparent : getFrame ((boot ram).kernel.mm.pagusrTable 8) (pagLogInitData + 0) = 272 := by
    rw [boot_table, (getFrame_bootTable (by decide) (by decide)).2]
    rfl
  rw [htaken, hcur, hparent, hmm, setUserPages_loadedMm] at hpre
  exact absurd hpre (by decide)

/-- The first child of the initial process: its memory is a copy if the frames
left at boot happen to hold the right bytes. -/
theorem duplicated_iff_fork_boot :
    ∃ w, (boot (fun _ => 0)).step .fork = some w
      ∧ ((boot (fun _ => 0)).Duplicated w 7
        ↔ (boot (fun _ => 0)).Prefilled ∧ (boot (fun _ => 0)).Unmapped) := by
  obtain ⟨-, -, -, -, -, -, -, -, hnext⟩ := boot_frame (fun _ => 0)
  obtain ⟨w, hst, hpos, -⟩ := exists_fork_boot (fun _ => 0)
  exact ⟨w, hst, duplicated_iff_prefilled ⟨[], Run.nil _⟩ hst hpos hnext⟩

end World

end ZeOS.Zeos
