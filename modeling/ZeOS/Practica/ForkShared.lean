import ZeOS.Practica.Exhaustion
import ZeOS.Practica.ExitShared

/-!
# The shared pages of a child

`sys_fork` writes the child's entry of a shared page where its own entry has
a frame, and nowhere else; `allocate_DIR` clears nothing. The table it
writes into belongs to the slot of a process that has exited, and an exit
leaves the pages of the shared region mapped. What the child has where its
parent has nothing is what the last owner of the slot had there.

The counts go up by the pages of the shared region that map a segment. A
process that has attached one below, in a page of the kernel that is free,
passes it on uncounted.
-/

namespace ZeOS.Practica

namespace Kernel

/-- **A child has exactly the shared mappings of its parent**: in the shared
region the same pages with the same frames, and each count has gone up by
the number of pages on which the parent has the segment. -/
structure InheritsShared (k k' : Kernel) (c : Slot) : Prop where
  entries : ∀ p, pagLogInitShared ≤ p → p < totalPages →
    (k'.ptOf c p).present = (k'.currentPt p).present
      ∧ ((k'.currentPt p).present = true → getFrame (k'.ptOf c) p = getFrame k'.currentPt p)
  references : ∀ i < shmLength, (k'.mm.shmMem i).referencias
    = (k.mm.shmMem i).referencias + (pagesOf k.currentPt (k.mm.shmMem i).shmMemFrameAddr).card

variable {k k' : Kernel} {a : Schedule} {c : Slot} {cs : List Slot} {ebp : DWord}

/-- A fork that returns no error has found its frames. -/
theorem le_of_sysFork (hth : k.sched.Threads a) (hfree : a.free = c :: cs)
    (hok : 0 ≤ (k.sysFork ebp).1) : numPagData ≤ (freeFrames k.mm.physMem).length := by
  by_contra hlen
  obtain ⟨s', hres, -⟩ := sysFork_fail hth hfree (Nat.not_le.mp hlen) ebp
  rw [hres] at hok
  replace hok : 0 ≤ -eAGAIN := hok
  exact absurd hok (by decide)

/-- **A successful fork.** -/
theorem Follows.step_fork (hf : k.Follows a) (hfree : a.free = c :: cs)
    (hlen : numPagData ≤ (freeFrames k.mm.physMem).length)
    (hst : k.step (.fork ebp) = some k') :
    ∃ hbusy : a.current ≠ a.idle, k'.Follows (a.spawn c cs hfree hbusy)
      ∧ k'.mm = (k.mm.withFrames c numPagData).forkPages a.current c := by
  obtain ⟨a', hf', ho, -⟩ := hf.step hst
  generalize hmm : k'.mm = m' at ho
  cases ho with
  | forkNone _ hnone => exact absurd (hfree.symm.trans hnone) (List.cons_ne_nil c cs)
  | forkFail _ _ _ _ hlt => exact absurd hlen (Nat.not_le.mpr hlt)
  | forkOk _ c' cs' hcons hidle =>
    obtain ⟨hc, hcs⟩ := List.cons.inj (hfree.symm.trans hcons)
    subst hc hcs
    exact ⟨hidle, hf', rfl⟩

/-- The shared region of the two tables after a fork. -/
theorem fork_entries (hf : k.Follows a) (hfree : a.free = c :: cs)
    (hlen : numPagData ≤ (freeFrames k.mm.physMem).length)
    (hst : k.step (.fork ebp) = some k') {p : ℕ} (hp : pagLogInitShared ≤ p)
    (hlt : p < totalPages) :
    k'.currentPt p = k.currentPt p
      ∧ k'.ptOf c p = if getFrame k.currentPt p ≠ 0 then (k.currentPt p).opened
          else k.mm.pagusrTable c p := by
  obtain ⟨hbusy, hf', hmm⟩ := hf.step_fork hfree hlen hst
  have hcc : a.current ≠ c := (a.first_free hfree).2.2
  have hlive : (a.spawn c cs hfree hbusy).Live c :=
    Or.inr (Or.inr (List.mem_append_right _ (List.mem_singleton_self c)))
  rw [currentPt_eq hf'.threads, currentPt_eq hf.threads, ptOf_eq hf'.threads hlive, hmm,
    Mm.forkPages_withFrames _ hcc]
  dsimp only
  have hcur : (a.spawn c cs hfree hbusy).current = a.current := rfl
  rw [hcur, if_neg hcc, if_pos rfl, if_pos rfl]
  refine ⟨if_neg (fun hc => Nat.not_lt.mpr hp hc.2), ?_⟩
  rw [Mm.childTable, if_neg (Nat.not_lt.mpr (le_trans (by decide) hp)), if_neg (Nat.not_lt.mpr hp)]
  exact if_congr (and_iff_right hlt) rfl rfl

/-- The counts after a fork. -/
theorem fork_references (hf : k.Follows a) (hfree : a.free = c :: cs)
    (hlen : numPagData ≤ (freeFrames k.mm.physMem).length)
    (hst : k.step (.fork ebp) = some k') {i : ℕ} (hi : i < shmLength) :
    (k'.mm.shmMem i).referencias = (k.mm.shmMem i).referencias
      + mapCount k.currentPt sharedPages (k.mm.shmMem i).shmMemFrameAddr := by
  obtain ⟨-, -, hmm⟩ := hf.step_fork hfree hlen hst
  rw [hmm, Mm.forkPages_withFrames _ (a.first_free hfree).2.2, currentPt_eq hf.threads]
  dsimp only
  rw [if_pos hi]

end Kernel

/-- In the shared region the pages with a frame are the mapped ones. -/
theorem SharedRegion.present_iff {pt : PageTable} (hr : SharedRegion pt) {p : ℕ}
    (hp : pagLogInitShared ≤ p) (hlt : p < totalPages) :
    (pt p).present = true ↔ getFrame pt p ≠ 0 := by
  rcases hr p hp hlt with ⟨hpres, h0⟩ | ⟨hpres, -, -, hshm⟩
  · rw [hpres]
    exact iff_of_false Bool.false_ne_true (not_not.mpr h0)
  · exact iff_of_true hpres hshm.ne_zero

section Attach

variable {M : Machine} {k : Kernel} {a : Schedule} {u r t v : ℕ}

/-- An attachment in the shared region takes no frames. -/
theorem Drained.attach {f : ℕ} (h : Drained M k a u f r t v) {s : Slot} (hs : a.current = s)
    {id addr : DWord} {i page : ℕ} (hacc : Mm.ShmatAccepts id addr) (hi : id.toNat = i)
    (hge : pagLogInitShared ≤ page) (hfirst : IsFirstFree (k.mm.pagusrTable s) (pageOf addr) page)
    {b : ℤ} (hcounts : k.mm.CountsWithin b) (hb : b + 1 ≤ 2 ^ 20 * (u + 1) - 1000 * r)
    (hu : u ≤ 200) :
    ∃ k', k.step (.shmat id addr) = some k' ∧ Drained M k' a u f r t v
      ∧ k'.mm = k.mm.attach s i page := by
  have hattached := (hcounts.attach s i page).mono hb
  obtain ⟨k', hst, hf, hmm⟩ :=
    h.follows.exists_attach h.busy hs hacc hi hfirst (hattached.fit (by omega))
  subst hs
  have hphys : k'.mm.physMem = k.mm.physMem := by
    rw [hmm]
    rfl
  refine ⟨k', hst, ⟨hf, ?_, fun s hs p h₁ h₂ => ?_, fun g hg => ?_, h.count_le, ?_, h.last,
    h.free, h.ready, h.busy, hmm ▸ hattached⟩, hmm⟩
  · rw [hmm]
    exact h.mapped.attach (a.user_current h.busy) (hi ▸ hacc.id_lt) hfirst.absent
  · rw [hmm]
    show getFrame ((k.mm.setTable a.current _).pagusrTable s) p = _
    rw [← h.frames s hs p h₁ h₂, getFrame, Mm.setTable_apply]
    split_ifs with hsa
    · rw [setSsPag_apply, if_neg (Nat.ne_of_lt (h₂.trans_le hge)), hsa]
      rfl
    · rfl
  · rw [hphys]
    exact h.count g hg
  · rw [hphys]
    exact h.total

end Attach

/-- **A child has exactly the shared mappings of its parent** if and only if
the parent has no segment below the shared region and the slot has kept no
shared page that the parent does not map. -/
theorem fork_inherits_iff (M : Machine) (k : Kernel) (h : Reachable M k) (ebp : DWord) (c : Slot)
    (hc : k.freeSlots.head? = some c) (hok : 0 ≤ (k.entered.sysFork ebp).1) (k' : Kernel)
    (hst : k.step (.fork ebp) = some k') :
    k.InheritsShared k' c ↔ ¬ k.MapsLow ∧ ¬ k.FindsStale := by
  obtain ⟨a, hf, hm⟩ := h.mapped
  obtain ⟨cs, hfree⟩ : ∃ cs, a.free = c :: cs := by
    rw [Kernel.freeSlots_eq hf.threads] at hc
    exact List.head?_eq_some_iff.mp hc
  have hlen : numPagData ≤ (freeFrames k.mm.physMem).length :=
    Kernel.le_of_sysFork (k := k.entered) hf.entered.threads hfree hok
  have hpt := Kernel.currentPt_eq hf.threads
  have hpres : ∀ {p}, pagLogInitShared ≤ p → p < totalPages →
      ((k.currentPt p).present = true ↔ getFrame k.currentPt p ≠ 0) := by
    rw [hpt]
    exact (hm.shared a.current).present_iff
  have href := fun i hi => Kernel.fork_references hf hfree hlen hst (i := i) hi
  have hent := fun p hp hlt => Kernel.fork_entries hf hfree hlen hst (p := p) hp hlt
  constructor
  · intro hinh
    refine ⟨(not_mapsLow_iff hf hm).mpr fun i hi => ?_, ?_⟩
    · -- what the loop counts is all there is
      have hcard := hinh.references i hi
      rw [href i hi, hpt, hm.shm_addr i hi,
        card_pagesOf (hm.shared a.current) (isShm_shmFrame hi).ne_zero] at hcard
      exact Finset.card_eq_zero.mp (by omega)
    · rintro ⟨c', hc', p, hp, hlt, hold, hz⟩
      obtain rfl := Option.some_inj.mp (hc.symm.trans hc')
      obtain ⟨hsame, hchild⟩ := hent p hp hlt
      have hboth := (hinh.entries p hp hlt).1
      rw [hchild, hsame, if_neg (not_not.mpr hz), hold, eq_comm, hpres hp hlt] at hboth
      exact hboth hz
  · rintro ⟨hlow, hstale⟩
    refine ⟨fun p hp hlt => ?_, fun i hi => ?_⟩
    · obtain ⟨hsame, hchild⟩ := hent p hp hlt
      have hold : getFrame k.currentPt p = 0 → (k.mm.pagusrTable c p).present = false :=
        fun hz => Bool.eq_false_iff.mpr fun hold => hstale ⟨c, hc, p, hp, hlt, hold, hz⟩
      rw [getFrame, getFrame, hchild, hsame]
      by_cases hz : getFrame k.currentPt p = 0
      · have habs : (k.currentPt p).present = false :=
          Bool.eq_false_iff.mpr fun hc => (hpres hp hlt).mp hc hz
        rw [if_neg (not_not.mpr hz), hold hz, habs]
        exact ⟨rfl, fun hc => absurd hc (by decide)⟩
      · rw [if_pos hz, (hpres hp hlt).mpr hz]
        exact ⟨rfl, fun _ => rfl⟩
    · have hnone := (not_mapsLow_iff hf hm).mp hlow i hi
      rw [href i hi, hpt, hm.shm_addr i hi,
        card_pagesOf (hm.shared a.current) (isShm_shmFrame hi).ne_zero, hnone, Finset.card_empty,
        Nat.zero_add]

/-- **The initial process attaches segment 0 and forks**: its child has it too. -/
theorem fork_inherits_iff_attach : ∃ k k',
    Machine.sample.boot.step (.shmat 0#32 0x11c000#32) = some k ∧ k.step (.fork 0) = some k'
      ∧ k.InheritsShared k' 2 ∧ (k'.ptOf 2 284).present = true := by
  have hboot := Drained.boot Machine.sample
  have hacc : Mm.ShmatAccepts 0#32 0x11c000#32 := ⟨by decide, by decide, by decide⟩
  have hfirst : IsFirstFree (Machine.sample.boot.mm.pagusrTable 1) (pageOf 0x11c000#32) 284 := by
    rw [show pageOf 0x11c000#32 = 284 by decide]
    refine Mm.isFirstFree_self (by decide) ?_
    rw [boot_zero Machine.sample (by decide)]
    rfl
  obtain ⟨k, hst₁, hd, hmm⟩ := hboot.attach (show _ = 1 from rfl) hacc (show _ = 0 from rfl)
    (by decide) hfirst (countsWithin_boot Machine.sample) (by decide) (by decide)
  have hf := hd.follows
  have hlen : numPagData ≤ (freeFrames k.mm.physMem).length := hd.total ▸ by decide
  obtain ⟨k', -, hst, -⟩ := hd.spawn (by decide) (by decide) (c := 2) rfl
  obtain ⟨s', hres, -, -⟩ := Kernel.sysFork_ok hf.entered.threads rfl (by decide) hlen 0
  have hok : 0 ≤ (k.entered.sysFork 0).1 := by
    rw [hres]
    show (0 : ℤ) ≤ bootSchedule.lastPid + 1
    decide
  have hc : k.freeSlots.head? = some 2 := by
    rw [Kernel.freeSlots_eq hf.threads]
    rfl
  have hpage : (k.currentPt 284).present = true := by
    rw [Kernel.currentPt_eq hf.threads, hmm]
    exact Mm.attach_present _ _ _ _
  -- nothing is attached below the shared region, and slot 2 has never been used
  have hlow : ¬ k.MapsLow := by
    refine (not_mapsLow_iff hf hd.mapped).mpr fun i hi => ?_
    refine Finset.eq_empty_of_forall_notMem fun p hp => ?_
    obtain ⟨hp, hlow⟩ := mem_lowPages.mp hp
    have hsame : k.mm.pagusrTable 1 p = Machine.sample.boot.mm.pagusrTable 1 p := by
      have hne : p ≠ 284 := Nat.ne_of_lt hlow
      rw [hmm, Mm.attach_entry_other _ hne]
    have hnone := pagesOf_boot Machine.sample (bootSchedule.user_current (by decide)) hi
    rw [show bootSchedule.current = 1 from rfl] at hp hnone
    rw [mem_pagesOf, getFrame, hsame] at hp
    exact Finset.notMem_empty p (hnone ▸ mem_pagesOf.mpr hp)
  have hstale : ¬ k.FindsStale := by
    rintro ⟨c, hc', p, hp, -, hold, -⟩
    obtain rfl := Option.some_inj.mp (hc.symm.trans hc')
    rw [hmm, Mm.attach_other _ (by decide), boot_mm] at hold
    dsimp only at hold
    rw [if_neg (by decide), Mapped.initTablePages_of_ge _ (le_trans (by decide) hp)] at hold
    exact absurd hold (by decide)
  have hinh := (fork_inherits_iff Machine.sample k ⟨_, Run.single trivial hst₁⟩ 0 2 hc hok k'
    hst).mpr ⟨hlow, hstale⟩
  refine ⟨k, k', hst₁, hst, hinh, ?_⟩
  obtain ⟨hsame, -⟩ := Kernel.fork_entries hf (c := 2) rfl hlen hst (p := 284) le_rfl (by decide)
  rw [(hinh.entries 284 le_rfl (by decide)).1, hsame]
  exact hpage

/-! ## A slot used before -/

/-- **A table left behind**: slot 1 is the last to be handed out and has kept
the first page of the shared region, while process 2, which is running, maps
nothing there. -/
structure LeftBehind (k : Kernel) (a : Schedule) (slots : List Slot) : Prop where
  current : a.current = 2
  free : a.free = slots ++ [1]
  kept : (k.mm.pagusrTable 1 284).present = true
  absent : getFrame (k.mm.pagusrTable 2) 284 = 0

section LeftBehind

variable {M : Machine} {k : Kernel} {a : Schedule} {u r t v : ℕ} {slots : List Slot}

/-- Forks into the slots before it change neither. -/
theorem LeftBehind.forks (h : LeftBehind k a slots)
    (hd : Drained M k a u (slots.length + 1) r t v) (ht : numPagData * (slots.length + 1) ≤ t)
    (hu : u + slots.length ≤ 200) :
    ∃ k' a' v', Run Kernel.step (fun _ _ => True) k (List.replicate slots.length (.fork 0)) k'
      ∧ LeftBehind k' a' []
      ∧ Drained M k' a' (u + slots.length) 1 (r + slots.length) (t - numPagData * slots.length)
          v' := by
  induction slots generalizing k a u r t v with
  | nil => exact ⟨k, a, v, Run.nil k, h, hd⟩
  | cons c cs ih =>
    rw [List.length_cons] at hd ht hu ⊢
    simp only [numPagData] at ht
    have hfree : a.free = c :: (cs ++ [1]) := h.free
    have hc1 : c ≠ 1 := by
      rintro rfl
      exact (a.first_free hfree).1 (List.mem_append_right _ (List.mem_singleton_self 1))
    have hcur : a.current ≠ c := (a.first_free hfree).2.2
    have hfive : numPagData ≤ t := by
      simp only [numPagData]
      omega
    obtain ⟨k₁, -, hst, hd₁⟩ := hd.spawn hfive (by omega) hfree
    obtain ⟨-, -, hmm⟩ := hd.follows.step_fork hfree (hd.total ▸ hfive) hst
    rw [Mm.forkPages_withFrames _ hcur, h.current] at hmm
    rw [h.current] at hcur
    have h₁ : LeftBehind k₁ (a.spawn c (cs ++ [1]) hfree hd.busy) cs := by
      refine ⟨h.current, rfl, ?_, ?_⟩
      · rw [hmm]
        dsimp only
        rw [if_neg hc1.symm, if_neg (by decide)]
        exact h.kept
      · rw [hmm]
        dsimp only
        rw [if_neg hcur, if_pos rfl, getFrame, Mm.parentTable, if_neg (by decide)]
        exact h.absent
    obtain ⟨k', a', v', hrun, h', hd'⟩ := ih h₁ hd₁ (by simp only [numPagData]; omega) (by omega)
    refine ⟨k', a', v', (Run.single trivial hst).append hrun, h', ?_⟩
    rw [Nat.mul_succ, Nat.add_comm (numPagData * cs.length), ← Nat.sub_sub, ← Nat.add_assoc,
      ← Nat.add_assoc, Nat.add_right_comm u, Nat.add_right_comm r]
    exact hd'

/-- **Process 1 forks, attaches segment 0 at the first page of the shared
region and exits.** -/
theorem exists_leftBehind (M : Machine) :
    ∃ k a v, Run Kernel.step (fun _ _ => True) M.boot
        [.fork 0, .shmat 0#32 0x11c000#32, .exit 0] k
      ∧ LeftBehind k a [3, 4, 5, 6, 7, 8, 9] ∧ Drained M k a 1 8 0 346 v := by
  have hacc : Mm.ShmatAccepts 0#32 0x11c000#32 := ⟨by decide, by decide, by decide⟩
  have hpage : pageOf 0x11c000#32 = 284 := by decide
  obtain ⟨k₁, -, hst₁, h₁⟩ := (Drained.boot M).spawn (by decide) (by decide) (c := 2) rfl
  obtain ⟨-, -, hmm₁⟩ :=
    (follows_boot M).step_fork (c := 2) rfl ((Drained.boot M).total ▸ by decide) hst₁
  have hcounts₁ : k₁.mm.CountsWithin (0 + 740) := hmm₁ ▸ (countsWithin_boot M).fork (by decide)
  rw [Mm.forkPages_withFrames _ (show bootSchedule.current ≠ 2 by decide),
    show bootSchedule.current = 1 from rfl] at hmm₁
  have hzero : getFrame (M.boot.mm.pagusrTable 1) 284 = 0 := by
    rw [getFrame, boot_zero M (by decide)]
    rfl
  -- neither process has the page after the fork
  have hparent : k₁.mm.pagusrTable 1 284 = PageTableEntry.zero := by
    rw [hmm₁]
    dsimp only
    rw [if_neg (by decide), if_pos rfl, Mm.parentTable, if_neg (by decide)]
    exact boot_zero M (by decide)
  have hchild : k₁.mm.pagusrTable 2 284 = PageTableEntry.zero := by
    rw [hmm₁]
    dsimp only
    rw [if_pos rfl, Mm.childTable, if_neg (by decide), if_neg (by decide),
      if_neg (fun hc => hc.2 hzero), boot_mm]
    dsimp only
    rw [if_neg (by decide), Mapped.initTablePages_of_ge M (by decide)]
  have hfirst : IsFirstFree (k₁.mm.pagusrTable 1) (pageOf 0x11c000#32) 284 := by
    rw [hpage]
    exact Mm.isFirstFree_self (by decide) (by rw [hparent]; rfl)
  obtain ⟨k₂, hst₂, h₂, hmm₂⟩ := h₁.attach (show _ = 1 from rfl) hacc (show _ = 0 from rfl)
    (by decide) hfirst hcounts₁ (by decide) (by decide)
  obtain ⟨k₃, hst₃, h₃⟩ := h₂.retire (by decide)
  refine ⟨k₃, _, _, ((Run.single trivial hst₁).snoc trivial hst₂).snoc trivial hst₃,
    ⟨rfl, rfl, ?_, ?_⟩, h₃⟩
  · rw [exit_entry_shared (s := 1) (p := 284) h₂.follows hst₃ rfl le_rfl, hmm₂]
    exact Mm.attach_present _ _ _ _
  · have hexit : k₃.mm = k₂.mm.exitPages 1 := h₂.follows.step_exit hst₃
    rw [hexit, Mm.exitPages_other (show (2 : Slot) ≠ 1 by decide), hmm₂]
    rw [Mm.attach_other _ (show (2 : Slot) ≠ 1 by decide), getFrame, hchild]
    rfl

end LeftBehind

/-- **A child with a page of its own**: slot 1, handed out again, still maps
segment 0, which process 2 has not attached. -/
theorem not_fork_inherits_stale :
    ∃ k k', Reachable Machine.sample k ∧ 0 ≤ (k.entered.sysFork 0).1
      ∧ k.step (.fork 0) = some k' ∧ k.freeSlots.head? = some 1
      ∧ (k'.currentPt 284).present = false ∧ (k'.ptOf 1 284).present = true
      ∧ ¬ k.InheritsShared k' 1 := by
  obtain ⟨k₁, a₁, v₁, hrun₁, hleft₁, hd₁⟩ := exists_leftBehind Machine.sample
  obtain ⟨k, a, v, hrun, hleft, hd⟩ := hleft₁.forks hd₁ (by decide) (by decide)
  have hfree : a.free = 1 :: [] := hleft.free
  have hlen : numPagData ≤ (freeFrames k.mm.physMem).length := hd.total ▸ by decide
  obtain ⟨k', -, hst, hd'⟩ := hd.spawn (by decide) (by decide) hfree
  have hfirst : k.freeSlots.head? = some 1 := by
    rw [Kernel.freeSlots_eq hd.follows.threads, hfree]
    rfl
  obtain ⟨hsame, hchild⟩ :=
    Kernel.fork_entries hd.follows hfree hlen hst (p := 284) le_rfl (by decide)
  obtain ⟨s', hres, -, -⟩ := Kernel.sysFork_ok hd.follows.entered.threads hfree hd.busy hlen 0
  have hok : 0 ≤ (k.entered.sysFork 0).1 := by
    rw [hres]
    show (0 : ℤ) ≤ a.lastPid + 1
    rw [hd.last]
    omega
  obtain ⟨-, hpt⟩ := hd.follows.currentPt hleft.current
  rw [hpt] at hchild
  have hpres : (k'.ptOf 1 284).present = true := by
    rw [hchild, if_neg (not_not.mpr hleft.absent)]
    exact hleft.kept
  have habs : (k'.currentPt 284).present = false := by
    rw [hsame, hpt, Bool.eq_false_iff, Ne,
      (hd.mapped.shared 2).present_iff (le_refl 284) (by decide)]
    exact not_not.mpr hleft.absent
  refine ⟨k, k', ⟨_, hrun₁.append hrun⟩, hok, hst, hfirst, habs, hpres, fun hinh => ?_⟩
  have hboth := (hinh.entries 284 le_rfl (by decide)).1
  rw [hpres, habs] at hboth
  exact absurd hboth (by decide)

end ZeOS.Practica
