import ZeOS.Practica.DataPages
import ZeOS.Practica.Exhaustion

/-!
# No live mapping points to a free frame

The byte map counts the processes behind the frame of a data page, and as
long as it counts them right a frame that is mapped is not free. Two things
break the count. An exit frees the frames of the process that exits, those
it shares included, where it should count them down. A copy that finds no
frame maps the number the allocator fails with, for which there is no byte.
-/

namespace ZeOS.Practica

/-- A free frame is left if a store to the address has to copy the page. -/
def Kernel.CopyFinds (k : Kernel) (addr : DWord) : Prop :=
  2 ≤ k.mm.physMem (getFrame k.currentPt (pageOf addr)) → freeFrames k.mm.physMem ≠ []

/-- **The events that keep mapped frames in use**: an exit of a process that
shares no data page with a live one, a store or a fault that finds a free
frame if the page has to be copied, and every event of another kind. -/
def KeepsFrames (k : Kernel) : Event → Prop
  | .exit _ => ∀ s, k.Live s → s ≠ k.sched.current → ∀ i j,
      getFrame (k.ptOf s) (dataPage i) ≠ getFrame k.currentPt (dataPage j)
  | .store addr _ => k.CopyFinds addr
  | .fault cr2 => k.CopyFinds cr2
  | _ => True

/-- A step of this kind keeps the data pages in order. -/
theorem InOrder.outcome {M : Machine} {k : Kernel} {a a' : Schedule} {m' : Mm}
    (hk : k.Follows a) (hm : Mapped M a k.mm) (h : InOrder (dataTable a k.mm)) {e : Event}
    (hen : e.byTask = true → a.current ≠ a.idle) (hP : KeepsFrames k e)
    (ho : Outcome a k.mm e a' m') (hdown : m'.stuck = false) : InOrder (dataTable a' m') := by
  have hstep := dataStep_of_outcome hm hen ho hdown
  generalize dataTable a' m' = t' at hstep
  have hcopy : ∀ {i : DataPage} {addr : DWord}, dataPage i = pageOf addr →
      getFrame k.currentPt (pageOf addr) = (dataTable a k.mm).frame a.current i := by
    intro i addr hi
    rw [dataTable_frame, Kernel.currentPt_eq hk.threads, ← hi]
    rfl
  cases hstep with
  | calm _ _ hc => exact h.calm hc
  | fault cr2 i _ hi hc =>
    refine h.copied hc (hP ?_)
    rw [hcopy hi]
    exact hc.shared
  | store addr b i _ hi hc =>
    refine h.copied hc (hP ?_)
    rw [hcopy hi]
    exact hc.shared
  | fork ebp c _ _ hf => exact h.forked hf
  | exit ebp _ he =>
    refine h.exited he (fun q hq hne i j => ?_)
    have hlive : a.Live q := (a.live_iff_user q).mpr (Or.inl (mem_owners.mp hq))
    have hapart := hP q ((Kernel.live_iff hk.threads q).mpr hlive)
      (by rwa [hk.threads.current_eq]) i j
    rwa [Kernel.ptOf_eq hk.threads hlive, Kernel.currentPt_eq hk.threads] at hapart

/-- The data pages at the end of such a run. -/
theorem inOrder_of_run {M : Machine} {es : List Event} {k : Kernel}
    (h : Run Kernel.step KeepsFrames M.boot es k) :
    ∃ a, k.Follows a ∧ Mapped M a k.mm ∧ InOrder (dataTable a k.mm) :=
  run_invariant (I := fun a m => Mapped M a m ∧ InOrder (dataTable a m))
    ⟨Mapped.boot M, inOrder_boot M⟩
    (fun _ _ _ _ _ hk hen hI hP ho hdown =>
      ⟨hI.1.outcome hen ho hdown, InOrder.outcome hk hI.1 hI.2 hen hP ho hdown⟩) h

/-- The data pages of the idle task are not present. -/
theorem Mapped.user_of_present {M : Machine} {a : Schedule} {m : Mm} (h : Mapped M a m) {s : Slot}
    (hs : a.Live s) {p : ℕ} (hp : pagLogInitData ≤ p)
    (hpres : (m.pagusrTable s p).present = true) : a.User s := by
  refine ((a.live_iff_user s).mp hs).resolve_right (fun hi => ?_)
  rw [hi, h.idle_table, initTablePages_of_ge M (le_trans (by decide) hp)] at hpres
  exact absurd hpres (by decide)

/-- **No live data page points to a free frame**, after any run of events
that keep mapped frames in use, and the allocator does not hand such a frame
out. -/
theorem live_frame_used (M : Machine) (es : List Event) (k : Kernel)
    (h : Run Kernel.step KeepsFrames M.boot es k) (s : Slot) (hs : k.Live s) (p : ℕ)
    (h₁ : pagLogInitData ≤ p) (h₂ : p < pagLogInitShared) (hpres : (k.ptOf s p).present = true) :
    k.mm.physMem (getFrame (k.ptOf s) p) ≠ freeFrameMark
      ∧ (allocFrame k.mm.physMem).1 ≠ getFrame (k.ptOf s) p := by
  obtain ⟨a, hf, hm, ho⟩ := inOrder_of_run h
  have hs' := (Kernel.live_iff hf.threads s).mp hs
  rw [Kernel.ptOf_eq hf.threads hs'] at hpres ⊢
  have hu : s ∈ (dataTable a k.mm).owners := mem_owners.mpr (hm.user_of_present hs' h₁ hpres)
  obtain ⟨i, rfl⟩ := exists_dataPage h₁ h₂
  have hpos : 0 < k.mm.physMem (getFrame (k.mm.pagusrTable s) (dataPage i)) :=
    ho.sound.count_pos hu i
  refine ⟨Nat.pos_iff_ne_zero.mp hpos, fun halloc => ?_⟩
  have hnot : getFrame (k.mm.pagusrTable s) (dataPage i) ∉ freeFrames k.mm.physMem :=
    ho.notMem_freeFrames hu i
  rw [allocFrame_eq] at halloc
  cases hfree : freeFrames k.mm.physMem with
  | nil =>
    rw [hfree] at halloc
    dsimp only at halloc
    omega
  | cons g gs =>
    rw [hfree] at halloc hnot
    exact hnot (Int.natCast_inj.mp halloc ▸ List.mem_cons_self)

/-- The child of the first fork. -/
theorem live_frame_used_child :
    ∃ k, Run Kernel.step KeepsFrames Machine.sample.boot [.fork 0] k ∧ k.Live 2
      ∧ k.mm.physMem (getFrame (k.ptOf 2) pagLogInitData) ≠ freeFrameMark
      ∧ (allocFrame k.mm.physMem).1 ≠ getFrame (k.ptOf 2) pagLogInitData := by
  obtain ⟨k, hst, hf, hmm, -⟩ := exists_first_fork Machine.sample 0
  have hrun : Run Kernel.step KeepsFrames Machine.sample.boot [.fork 0] k :=
    Run.single trivial hst
  have hlive' : firstFork.Live 2 := by decide
  have hlive : k.Live 2 := (Kernel.live_iff hf.threads 2).mpr hlive'
  obtain ⟨a, hf', hm⟩ := (reachable_of_run hrun).mapped
  have hu : a.User 2 := by
    refine ⟨(a.live_iff 2).mp ((Kernel.live_iff hf'.threads 2).mp hlive), ?_⟩
    rw [← hf'.threads.idle_eq, hf.threads.idle_eq]
    decide
  have hpres : (k.ptOf 2 pagLogInitData).present = true := by
    rw [Kernel.ptOf_eq hf.threads hlive']
    exact ((hm.user_table 2 hu).data _ le_rfl (by decide)).1
  exact ⟨k, hrun, hlive, live_frame_used Machine.sample [.fork 0] k hrun 2 hlive pagLogInitData
    le_rfl (by decide) hpres⟩

/-- **An exit frees the frames its child maps.** -/
theorem live_frame_freed :
    ∃ k, Run Kernel.step (fun _ _ => True) Machine.sample.boot [.fork 0, .exit 0] k
      ∧ ∃ s, k.Live s ∧ (k.ptOf s pagLogInitData).present = true
        ∧ k.mm.physMem (getFrame (k.ptOf s) pagLogInitData) = freeFrameMark := by
  obtain ⟨k₁, a₁, -, hst₁, h₁⟩ := (Drained.boot Machine.sample).fork (by decide) (by decide)
  obtain ⟨k, a, hst, h⟩ := h₁.exit (by decide)
  have hrun : Run Kernel.step (fun _ _ => True) Machine.sample.boot [.fork 0, .exit 0] k :=
    (Run.single trivial hst₁).append (Run.single trivial hst)
  have hu := a.user_current h.busy
  refine ⟨k, hrun, a.current, (Kernel.live_iff h.follows.threads _).mpr a.live_current, ?_⟩
  rw [Kernel.ptOf_eq h.follows.threads a.live_current,
    h.frames a.current hu pagLogInitData le_rfl (by decide)]
  exact ⟨((h.mapped.user_table a.current hu).data _ le_rfl (by decide)).1,
    h.count _ (by decide)⟩

end ZeOS.Practica
