import ZeOS.Practica.Taken

/-!
# Frames that are in use and mapped by nobody

A successful fork allocates a frame for each data page of the child and
then maps the child to the frames of its parent: the frames allocated stay
marked and no entry leads to them. From then on no run gets them back,
since only frames that are mapped are ever freed. An exit, in turn, frees
the data frames of a process and not those of its code. So a run leaks
frames exactly if it has a successful fork or an exit.
-/

namespace ZeOS.Practica

/-- **No frame is lost**: each frame in use, from the first one the allocator
manages on, is mapped by a live process or belongs to a segment. -/
def Kernel.NoLeak (k : Kernel) : Prop :=
  ∀ f, numPagKernel ≤ f → f < totalPages → k.mm.physMem f ≠ freeFrameMark →
    (∃ s, k.Live s ∧ ∃ p < totalPages, (k.ptOf s p).present = true ∧ getFrame (k.ptOf s) p = f)
      ∨ ∃ i < shmLength, (k.mm.shmMem i).shmMemFrameAddr = f

/-- **The events that lose no frame**: all but the forks that succeed and the
exits. -/
def LosesNothing (k : Kernel) : Event → Prop
  | .fork _ => k.freeSlots = [] ∨ (freeFrames k.mm.physMem).length < numPagData
  | .exit _ => False
  | _ => True

section Lost

variable {M : Machine} {k : Kernel} {a a' : Schedule} {m m' : Mm} {t t' : DataTable} {f : ℕ}

/-! ## A lost frame stays lost -/

/-- A frame in use that is behind no data page. -/
structure Lost (f : ℕ) (t : DataTable) : Prop where
  lt : f < totalPages
  used : t.count f ≠ 0
  unmapped : ∀ p ∈ t.owners, ∀ i, t.frame p i ≠ f

theorem Lost.copied {p : Slot} {i : DataPage} (h : Lost f t) (hc : Copied t t' p i) :
    Lost f t' := by
  have hne : f ≠ t.frame p i := (h.unmapped p hc.owner i).symm
  have hused : lessOne t p i f ≠ 0 := by
    rw [lessOne, Function.update_of_ne hne]
    exact h.used
  have hnext : f ≠ nextFrame (lessOne t p i) := ne_nextFrame hused h.lt
  refine ⟨h.lt, ?_, fun q hq j => ?_⟩
  · rw [hc.count]
    rcases nextFrame_cases (lessOne t p i) with ⟨g, gs, -, hn, hal⟩ | ⟨-, -, hal⟩
    · rw [hal, Function.update_of_ne (hn ▸ hnext)]
      exact hused
    · rw [hal]
      exact hused
  · rw [hc.owners] at hq
    by_cases hqi : q = p ∧ j = i
    · rw [hqi.1, hqi.2, hc.frame_self]
      exact hnext.symm
    · rw [hc.frame q hq j hqi]
      exact h.unmapped q hq j

theorem Lost.forked {p c : Slot} (h : Lost f t) (hf : Forked t t' p c) : Lost f t' := by
  refine ⟨h.lt, ?_, fun q hq i => ?_⟩
  · have hnot : f ∉ frames t p := by
      intro hm
      obtain ⟨i, hi⟩ := mem_frames.mp hm
      exact h.unmapped p hf.parent i hi
    rw [hf.count, addCounts_of_notMem hnot, markUsed]
    split_ifs
    · exact one_ne_zero
    · exact h.used
  · rw [hf.owners, Finset.mem_insert] at hq
    by_cases hqc : q = c
    · rw [hqc, hf.frame_child]
      exact h.unmapped p hf.parent i
    · have hq := hq.resolve_left hqc
      rw [hf.frame q hq]
      exact h.unmapped q hq i

theorem Lost.exited {p : Slot} (h : Lost f t) (he : Exited t t' p) : Lost f t' := by
  refine ⟨h.lt, ?_, fun q hq i => ?_⟩
  · rw [he.count, freeAll_apply, if_neg]
    · exact h.used
    · rintro ⟨hm, -⟩
      obtain ⟨i, hi⟩ := mem_frames.mp hm
      exact h.unmapped p he.owner i hi
  · have hq' := hq
    rw [he.owners] at hq'
    rw [he.frame q hq]
    exact h.unmapped q (Finset.mem_of_mem_erase hq') i

/-- **No step gets a lost frame back.** -/
theorem Lost.step {e : Event} (h : Lost f t) (hs : DataStep a t e t') : Lost f t' := by
  cases hs with
  | calm _ _ hc =>
    refine ⟨h.lt, hc.count ▸ h.used, fun q hq i => ?_⟩
    rw [hc.owners] at hq
    rw [hc.frame q hq]
    exact h.unmapped q hq i
  | fault _ _ _ _ hc => exact h.copied hc
  | store _ _ _ _ _ hc => exact h.copied hc
  | fork _ _ _ _ hf => exact h.forked hf
  | exit _ _ he => exact h.exited he

/-- A lost frame that is not a fixed one is a leak. -/
theorem not_noLeak_of_lost (hf : k.Follows a) (hm : Mapped M a k.mm) (hfix : ¬ Fixed f)
    (hl : Lost f (dataTable a k.mm)) : ¬ k.NoLeak := by
  intro hno
  have hge : numPagKernel ≤ f := Nat.not_lt.mp (fun hlt => hfix (Or.inl hlt))
  rcases hno f hge hl.lt hl.used with ⟨s, hs, p, hp, hpres, hfr⟩ | ⟨i, hi, haddr⟩
  · have hs' := (Kernel.live_iff hf.threads s).mp hs
    rw [Kernel.ptOf_eq hf.threads hs'] at hpres hfr
    rcases hm.fixed_or_data hs' hp hpres with hfixed | ⟨hu, i, rfl⟩
    · exact hfix (hfr ▸ hfixed)
    · exact hl.unmapped s (mem_owners.mpr hu) i hfr
  · rw [hm.shm_addr i hi] at haddr
    exact hfix (IsShm.fixed ⟨i, hi, haddr.symm⟩)

/-! ## Before anything is lost -/

/-- **As at boot**: the first task is the only process, with the frames it was
given, and the byte map has not changed. -/
structure Untouched (t : DataTable) : Prop where
  owners : ∀ s, s ∈ t.owners ↔ s = 1
  count : t.count = bootPhys 38
  frame : ∀ i, t.frame 1 i = codeFrame (dataPage i)

theorem untouched_boot (M : Machine) : Untouched (dataTable bootSchedule M.boot.mm) where
  owners s := mem_owners.trans user_boot
  count := by rw [dataTable_count, boot_mm]
  frame i := by
    obtain ⟨h₁, h₂⟩ := dataPage_bounds i
    rw [dataTable_frame, boot_mm]
    dsimp only
    rw [if_pos rfl, Mapped.bootTable_frame M (le_trans (by decide) h₁) h₂]

theorem Untouched.owner (h : Untouched t) : 1 ∈ t.owners := (h.owners 1).mpr rfl

/-- Nobody shares a data page, so none is ever copied. -/
theorem Untouched.not_copied (h : Untouched t) {p : Slot} {i : DataPage} (hp : p ∈ t.owners)
    (hshared : 2 ≤ t.count (t.frame p i)) : False := by
  rw [(h.owners p).mp hp, h.count, bootPhys_apply (by decide)] at hshared
  split_ifs at hshared <;> omega

theorem Untouched.step {e : Event} (hk : k.Follows a) (h : Untouched (dataTable a k.mm))
    (hP : LosesNothing k e) (hs : DataStep a (dataTable a k.mm) e t') : Untouched t' := by
  cases hs with
  | calm _ _ hc =>
    refine ⟨fun s => by rw [hc.owners, h.owners], hc.count.trans h.count, fun i => ?_⟩
    rw [hc.frame 1 h.owner, h.frame]
  | fault _ _ _ _ hc => exact (h.not_copied hc.owner hc.shared).elim
  | store _ _ _ _ _ hc => exact (h.not_copied hc.owner hc.shared).elim
  | fork _ c _ hc hf =>
    rcases hP with hnil | hfew
    · rw [Kernel.freeSlots_eq hk.threads] at hnil
      rw [hnil] at hc
      exact absurd hc List.not_mem_nil
    · exact absurd hfew (Nat.not_lt.mpr hf.enough)
  | exit _ _ he => exact hP.elim

/-- Where nothing is lost, the frames in use are those of the first task and
of the segments. -/
theorem noLeak_of_untouched (hf : k.Follows a) (hm : Mapped M a k.mm)
    (h : Untouched (dataTable a k.mm)) : k.NoLeak := by
  intro f hge hlt hused
  have hu : a.User 1 := mem_owners.mp h.owner
  have hlive : a.Live 1 := (a.live_iff_user 1).mpr (Or.inl hu)
  have hphys : k.mm.physMem = bootPhys 38 := h.count
  rw [hphys, bootPhys_apply (by decide)] at hused
  replace hge : 256 ≤ f := hge
  have hbounds : f < 332 ∧ f % 2 = 0 := by
    simp only [numPagKernel, freeFrameMark] at hused
    split_ifs at hused with hc
    · omega
    · exact absurd rfl hused
  obtain ⟨hmax, heven⟩ := hbounds
  have hpt := Kernel.ptOf_eq hf.threads hlive
  -- the frames were handed out in the order of the pages
  rcases Nat.lt_or_ge f 272 with h₁ | h₁
  · obtain ⟨hpres, -, hfr⟩ := (hm.user_table 1 hu).code (256 + (f - 256) / 2) (Nat.le_add_right _ _)
      (by show _ < 264; omega)
    refine Or.inl ⟨1, (Kernel.live_iff hf.threads 1).mpr hlive, 256 + (f - 256) / 2, ?_, ?_, ?_⟩
    · show _ < 1024
      omega
    · rw [hpt]
      exact hpres
    · rw [hpt]
      refine hfr.trans ?_
      unfold codeFrame
      omega
  rcases Nat.lt_or_ge f 312 with h₂ | h₂
  · obtain ⟨i, hi⟩ := exists_dataPage (p := 264 + (f - 272) / 2) (Nat.le_add_right _ _)
      (by show _ < 284; omega)
    have hb := dataPage_bounds i
    have hfr := h.frame i
    rw [dataTable_frame] at hfr
    refine Or.inl ⟨1, (Kernel.live_iff hf.threads 1).mpr hlive, dataPage i, dataPage_lt i, ?_, ?_⟩
    · rw [hpt]
      exact ((hm.user_table 1 hu).data _ hb.1 hb.2).1
    · rw [hpt]
      refine hfr.trans ?_
      rw [hi]
      unfold codeFrame
      omega
  · refine Or.inr ⟨(f - 312) / 2, by show _ < 10; omega, ?_⟩
    rw [hm.shm_addr _ (by show _ < 10; omega)]
    unfold shmFrame
    omega

/-! ## What the two kinds of event lose -/

/-- **A fork loses a frame**, the first one it allocates. -/
theorem Untouched.lost_of_forked {p c : Slot} (h : Untouched t) (hf : Forked t t' p c) :
    Lost 332 t' := by
  have hp : p = 1 := (h.owners p).mp hf.parent
  have hdata : ∀ i, t.frame 1 i ≠ 332 := by
    intro i hc
    have hi := i.isLt
    replace hi : (i : ℕ) < 20 := hi
    rw [h.frame] at hc
    have he : codeFrame (dataPage i) = 256 + 2 * (264 + (i : ℕ) - 256) := rfl
    omega
  have hfirst : 332 ∈ (freeFrames t.count).take numPagData := by
    rw [h.count, freeFrames_bootPhys]
    decide
  refine ⟨by decide, ?_, fun q hq i => ?_⟩
  · rw [hf.count, addCounts_of_notMem, markUsed, if_pos hfirst]
    · exact one_ne_zero
    · intro hm
      obtain ⟨i, hi⟩ := mem_frames.mp hm
      rw [hp] at hi
      exact hdata i hi
  · rw [hf.owners, Finset.mem_insert] at hq
    by_cases hqc : q = c
    · rw [hqc, hf.frame_child, hp]
      exact hdata i
    · have hq := hq.resolve_left hqc
      rw [hf.frame q hq, (h.owners q).mp hq]
      exact hdata i

theorem not_fixed_332 : ¬ Fixed 332 := by
  rintro (h | ⟨p, -, hp, h⟩ | h)
  · exact absurd h (by decide)
  · have hlt := codeFrame_lt hp
    omega
  · have hlt := h.bounds.2
    omega

/-- **Once no process is left** the frames of the code are lost. -/
theorem not_noLeak_of_no_user (hf : k.Follows a) (hm : Mapped M a k.mm)
    (hnone : ∀ s, ¬ a.User s) : ¬ k.NoLeak := by
  intro hno
  have hused : k.mm.physMem 256 ≠ freeFrameMark := by
    rw [hm.fixed_used 256 (Or.inr (Or.inl ⟨256, by decide, by decide, rfl⟩))]
    exact one_ne_zero
  rcases hno 256 le_rfl (by decide) hused with ⟨s, hs, p, -, hpres, hfr⟩ | ⟨i, hi, haddr⟩
  · have hs' := (Kernel.live_iff hf.threads s).mp hs
    rw [Kernel.ptOf_eq hf.threads hs'] at hpres hfr
    have hidle := ((a.live_iff_user s).mp hs').resolve_left (hnone s)
    rw [hidle] at hpres hfr
    replace hfr : (k.mm.pagusrTable a.idle p).frame = 256 := hfr
    have hlt := hm.idle_frame_lt hpres
    rw [hfr] at hlt
    exact absurd hlt (by decide)
  · rw [hm.shm_addr i hi] at haddr
    unfold shmFrame at haddr
    omega

/-- Nobody calls the kernel then, and nobody ever will. -/
theorem no_user_outcome {e : Event} (hen : e.byTask = true → a.current ≠ a.idle)
    (hnone : ∀ s, ¬ a.User s) (ho : Outcome a m e a' m') : ∀ s, ¬ a'.User s := by
  have hby : e.byTask = false := by
    by_contra hne
    exact hnone a.current (a.user_current (hen (by simpa using hne)))
  cases ho with
  | stay | key => exact hnone
  | switch => exact fun s hs => hnone s (Schedule.user_rotate.mp hs)
  | load | store | storeFault | fault | forkNone | forkFail | forkOk | exit | yield | shmat | shmdt
  | shmrm | read | getStats => exact absurd hby (by simp [Event.byTask])

end Lost

/-- **A run leaks no frame exactly if none of its steps is an exit or a fork
that succeeds.** -/
theorem no_leak_iff (M : Machine) (es : List Event) (k : Kernel)
    (h : Run Kernel.step (fun _ _ => True) M.boot es k) :
    k.NoLeak ↔ Run Kernel.step LosesNothing M.boot es k := by
  have huntouched : ∀ {es : List Event} {k : Kernel}, Run Kernel.step LosesNothing M.boot es k →
      ∃ a, k.Follows a ∧ Mapped M a k.mm ∧ Untouched (dataTable a k.mm) := fun hrun =>
    run_invariant (I := fun a m => Mapped M a m ∧ Untouched (dataTable a m))
      ⟨Mapped.boot M, untouched_boot M⟩
      (fun _ _ _ _ _ hk hen hI hP ho hdown => ⟨hI.1.outcome hen ho hdown,
        hI.2.step hk hP (dataStep_of_outcome hI.1 hen ho hdown)⟩) hrun
  constructor
  · intro hno
    rcases h.exists_first_not with hgood | ⟨bs, e, cs, u, v, -, hpre, -, hbad, hst, hpost⟩
    · exact hgood.mono (fun _ _ hP => hP.2)
    -- the first event that loses a frame
    exfalso
    obtain ⟨a, hfu, hmu, hu⟩ := huntouched (hpre.mono (fun _ _ hP => hP.2))
    obtain ⟨a', hfv, ho, hen⟩ := hfu.step hst
    have hmv := hmu.outcome hen ho hfv.mm_down
    have hlost : Lost 332 (dataTable a' v.mm) → ¬ k.NoLeak := by
      intro hl
      obtain ⟨b, hfk, hmk, hlk⟩ := run_invariant_from
        (I := fun a m => Mapped M a m ∧ Lost 332 (dataTable a m)) ⟨a', hfv, hmv, hl⟩
        (fun _ _ _ _ _ _ hen hI _ ho hdown => ⟨hI.1.outcome hen ho hdown,
          hI.2.step (dataStep_of_outcome hI.1 hen ho hdown)⟩) hpost
      exact not_noLeak_of_lost hfk hmk not_fixed_332 hlk
    have hnone : (∀ s, ¬ a'.User s) → ¬ k.NoLeak := by
      intro hn
      obtain ⟨b, hfk, hmk, hnk⟩ := run_invariant_from
        (I := fun a m => Mapped M a m ∧ ∀ s, ¬ a.User s) ⟨a', hfv, hmv, hn⟩
        (fun _ _ _ _ _ _ hen hI _ ho hdown => ⟨hI.1.outcome hen ho hdown,
          no_user_outcome hen hI.2 ho⟩) hpost
      exact not_noLeak_of_no_user hfk hmk hnk
    generalize hmv' : v.mm = mv at ho hlost hnone
    cases ho with
    | forkNone ebp hfree =>
      exact hbad (Or.inl ((Kernel.freeSlots_eq hfu.threads).trans hfree))
    | forkFail ebp c cs hfree hlen => exact hbad (Or.inr hlen)
    | forkOk ebp c cs hfree hidle hlen =>
      exact hlost (hu.lost_of_forked (table_forked hfree hidle hlen)) hno
    | exit ebp hidle =>
      refine hnone (fun s hs => ?_) hno
      obtain ⟨hs, hne⟩ := (Schedule.user_retire hidle).mp hs
      have hcur := (hu.owners _).mp (mem_owners.mpr (a.user_current hidle))
      exact hne (((hu.owners s).mp (mem_owners.mpr hs)).trans hcur.symm)
    | stay | switch | key | load | store | storeFault | fault | yield | shmat | shmdt | shmrm | read
    | getStats => exact hbad trivial
  · intro hgood
    obtain ⟨a, hf, hm, hu⟩ := huntouched hgood
    exact noLeak_of_untouched hf hm hu

/-- The first task attaches a segment, writes to a page that is not mapped, and
detaches the segment: nothing is lost. -/
theorem no_leak_iff_attach :
    ∃ k, Run Kernel.step (fun _ _ => True) Machine.sample.boot
        [.shmat 0#32 0x11c000#32, .fault 0x11d000#32, .shmdt 0x11c000#32] k
      ∧ k.NoLeak := by
  obtain ⟨k₁, k₂, hst₁, -, hst₂, hbusy, hcounts⟩ := exists_attach_fault Machine.sample
  have hloses₁ : LosesNothing Machine.sample.boot (.shmat 0#32 0x11c000#32) := trivial
  have hloses₂ : LosesNothing k₁ (.fault 0x11d000#32) := trivial
  have hloses₃ : LosesNothing k₂ (.shmdt 0x11c000#32) := trivial
  have hrun₂ := (Run.single hloses₁ hst₁).snoc hloses₂ hst₂
  obtain ⟨k, hst⟩ := (takes_iff (reachable_of_run hrun₂) (.shmdt 0x11c000#32)).mpr
    ⟨fun _ => hbusy, Kernel.takes_shmdt hcounts (by decide) _⟩
  have hrun := hrun₂.snoc hloses₃ hst
  exact ⟨k, hrun.mono fun _ _ _ => trivial, (no_leak_iff Machine.sample _ k
    (hrun.mono fun _ _ _ => trivial)).mpr hrun⟩

/-- **One fork leaks**: frame 332 is in use and mapped by nobody. -/
theorem not_no_leak_fork :
    ∃ k, Run Kernel.step (fun _ _ => True) Machine.sample.boot [.fork 0] k ∧ ¬ k.NoLeak := by
  obtain ⟨k, hst, hf, hmm, -⟩ := exists_first_fork Machine.sample 0
  have hrun : Run Kernel.step (fun _ _ => True) Machine.sample.boot [.fork 0] k :=
    Run.single trivial hst
  have hlen : numPagData ≤ (freeFrames Machine.sample.boot.mm.physMem).length :=
    (Drained.boot Machine.sample).total ▸ (by decide)
  have hm : Mapped Machine.sample firstFork k.mm := by
    rw [hmm]
    exact (Mapped.boot Machine.sample).forkOk rfl (by decide)
  have hforked : Forked (dataTable bootSchedule Machine.sample.boot.mm) (dataTable firstFork k.mm)
      1 2 := by
    rw [hmm]
    exact table_forked rfl (by decide) hlen
  exact ⟨k, hrun, not_noLeak_of_lost hf hm not_fixed_332
    ((untouched_boot Machine.sample).lost_of_forked hforked)⟩

end ZeOS.Practica
