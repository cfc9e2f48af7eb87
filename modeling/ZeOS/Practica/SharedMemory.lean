import Mathlib.Algebra.BigOperators.Group.Finset.Piecewise
import Mathlib.Algebra.BigOperators.Group.Finset.Sigma
import ZeOS.Practica.Tables

/-!
# The reference counts of the shared segments

The count of a segment should be the number of pages of live processes that
map it. Attaching keeps it so. Detaching counts a reference down and leaves
the page mapped, unless the segment is marked for removal and this is its
last reference. Forks and exits count the pages of the shared region only,
while a segment may be attached in the kernel's pages; and a fork leaves the
child the shared pages an earlier owner of its slot has left behind, where
its parent maps nothing. These are the only ways the count and the pages
drift apart.
-/

namespace ZeOS.Practica

namespace Kernel

/-- The pairs of a live process and a page it maps to a frame. -/
def mappings (k : Kernel) (f : ℕ) : Finset (Slot × ℕ) :=
  (Finset.univ.filter k.Live ×ˢ Finset.range totalPages).filter
    (fun x => (k.ptOf x.1 x.2).present = true ∧ getFrame (k.ptOf x.1) x.2 = f)

/-- **The reference counts are exact**: each is the number of mappings of its
segment. -/
def ExactReferences (k : Kernel) : Prop :=
  ∀ id < shmLength, (k.mm.shmMem id).referencias
    = (k.mappings (k.mm.shmMem id).shmMemFrameAddr).card

/-- The current process has a segment attached below the shared region. -/
def MapsLow (k : Kernel) : Prop :=
  ∃ p < pagLogInitShared, (k.currentPt p).present = true ∧
    ∃ i < shmLength, getFrame k.currentPt p = (k.mm.shmMem i).shmMemFrameAddr

/-- The slot the next fork takes has kept a shared page that its caller does
not map. -/
def FindsStale (k : Kernel) : Prop :=
  ∃ c ∈ k.freeSlots.head?, ∃ p, pagLogInitShared ≤ p ∧ p < totalPages
    ∧ (k.mm.pagusrTable c p).present = true ∧ getFrame k.currentPt p = 0

end Kernel

/-- **The events that keep the counts exact**: a detach of a page without a
segment, or of the last reference of a segment that is to be removed; a fork
that is given up, or one of a process with no segment below the shared region
into a slot with no stale page; an exit of such a process; and every event of
another kind. -/
def KeepsReferences (k : Kernel) : Event → Prop
  | .shmdt addr => ∀ i,
      k.mm.segmentAt (k.sched.getPt k.sched.current) (Mm.shmdtPage addr) = some i →
        (k.mm.shmMem i).aBorrar = true ∧ (k.mm.shmMem i).referencias = 1
  | .fork _ => k.freeSlots = [] ∨ (freeFrames k.mm.physMem).length < numPagData
      ∨ ¬ k.MapsLow ∧ ¬ k.FindsStale
  | .exit _ => ¬ k.MapsLow
  | _ => True

/-! ## The pages that map a frame -/

/-- The pages of a table that map a frame. -/
def pagesOf (pt : PageTable) (f : ℕ) : Finset ℕ :=
  (Finset.range totalPages).filter (fun p => (pt p).present = true ∧ getFrame pt p = f)

/-- Those of them below the shared region. -/
def lowPages (pt : PageTable) (f : ℕ) : Finset ℕ :=
  (pagesOf pt f).filter (fun p => p < pagLogInitShared)

/-- The pages of the shared region an old table maps to a frame, where a
parent has none. -/
def stalePages (parent old : PageTable) (f : ℕ) : Finset ℕ :=
  (pagesOf old f).filter (fun p => pagLogInitShared ≤ p ∧ getFrame parent p = 0)

section Pages

variable {pt old : PageTable} {f p : ℕ}

theorem mem_pagesOf :
    p ∈ pagesOf pt f ↔ p < totalPages ∧ (pt p).present = true ∧ getFrame pt p = f := by
  rw [pagesOf, Finset.mem_filter, Finset.mem_range]

theorem mem_lowPages : p ∈ lowPages pt f ↔ p ∈ pagesOf pt f ∧ p < pagLogInitShared :=
  Finset.mem_filter

theorem mem_stalePages : p ∈ stalePages pt old f
    ↔ p ∈ pagesOf old f ∧ pagLogInitShared ≤ p ∧ getFrame pt p = 0 :=
  Finset.mem_filter

/-- What the loops of `sys_fork` and `sys_exit` count. -/
theorem mapCount_eq_card (hf : f ≠ 0) : mapCount pt sharedPages f
    = ((Finset.range totalPages).filter
        (fun p => pagLogInitShared ≤ p ∧ getFrame pt p = f)).card := by
  have hnd : (sharedPages.filter
      (fun p => decide (getFrame pt p ≠ 0 ∧ getFrame pt p = f))).Nodup :=
    List.Nodup.filter _ List.nodup_range'
  rw [mapCount, List.countP_eq_length_filter, ← List.toFinset_card_of_nodup hnd]
  refine congrArg Finset.card (Finset.ext fun p => ?_)
  have hmem : p ∈ sharedPages ↔ pagLogInitShared ≤ p ∧ p < totalPages := by
    rw [List.mem_range'_1, Nat.add_sub_cancel' (by decide)]
  rw [List.mem_toFinset, List.mem_filter, hmem, decide_eq_true_iff, Finset.mem_filter,
    Finset.mem_range]
  constructor
  · rintro ⟨⟨h₁, h₂⟩, -, h₃⟩
    exact ⟨h₂, h₁, h₃⟩
  · rintro ⟨h₂, h₁, h₃⟩
    exact ⟨⟨h₁, h₂⟩, h₃ ▸ hf, h₃⟩

/-- **The pages of a process that map a segment**: those below the shared
region and those the loops count. -/
theorem card_pagesOf (hr : SharedRegion pt) (hf : f ≠ 0) :
    (pagesOf pt f).card = (lowPages pt f).card + mapCount pt sharedPages f := by
  rw [mapCount_eq_card hf, ← Finset.card_filter_add_card_filter_not (fun p => p < pagLogInitShared),
    lowPages]
  refine congrArg₂ (· + ·) rfl (congrArg Finset.card (Finset.ext fun p => ?_))
  rw [Finset.mem_filter, Finset.mem_filter, mem_pagesOf, Finset.mem_range, Nat.not_lt]
  constructor
  · rintro ⟨⟨h₁, -, h₃⟩, h₂⟩
    exact ⟨h₁, h₂, h₃⟩
  · rintro ⟨h₁, h₂, h₃⟩
    rcases hr p h₂ h₁ with ⟨-, h0⟩ | ⟨hpres, -⟩
    · exact absurd (h₃.symm.trans h0) hf
    · exact ⟨⟨h₁, hpres, h₃⟩, h₂⟩

/-- A page the child has from its parent. -/
theorem childTable_present (pt old : PageTable) (hp : p < totalPages)
    (h : p < pagLogInitShared ∨ getFrame pt p ≠ 0) :
    (Mm.childTable pt old p).present = true
      ∧ getFrame (Mm.childTable pt old) p = getFrame pt p := by
  rw [getFrame, Mm.childTable]
  split_ifs with h₁ h₂ h₃
  · exact ⟨rfl, rfl⟩
  · exact ⟨rfl, rfl⟩
  · exact ⟨rfl, rfl⟩
  · exact absurd ⟨hp, h.resolve_left h₂⟩ h₃

/-- A page it has from the last owner of its slot. -/
theorem childTable_stale (hp : pagLogInitShared ≤ p) (h : getFrame pt p = 0) :
    Mm.childTable pt old p = old p := by
  rw [Mm.childTable, if_neg (fun hc => Nat.not_lt.mpr hp (hc.trans (by decide))),
    if_neg (Nat.not_lt.mpr hp), if_neg (fun hc => hc.2 h)]

/-- **The pages of a child that map a segment**: those of its parent and the
ones left in its slot. -/
theorem card_pagesOf_childTable (hu : UserTable pt) (hf : IsShm f) :
    (pagesOf (Mm.childTable pt old) f).card
      = (lowPages pt f).card + mapCount pt sharedPages f + (stalePages pt old f).card := by
  have hge := hf.bounds.1
  have hf0 : f ≠ 0 := by omega
  -- a page below the shared region is mapped by the child where it was by the parent
  have hlow : ∀ p < pagLogInitShared, getFrame pt p = f → (pt p).present = true := by
    intro p hp hfr
    rcases Nat.lt_or_ge p numPagKernel with hk | hk
    · refine ((hu.low p hk).resolve_left (fun hlt => ?_)).1
      replace hlt : getFrame pt p < 256 := hlt
      omega
    · rcases Nat.lt_or_ge p pagLogInitData with hc | hc
      · exact (hu.code p hk hc).1
      · exact (hu.data p hc hp).1
  rw [mapCount_eq_card hf0, ← Finset.card_union_of_disjoint, ← Finset.card_union_of_disjoint]
  · refine congrArg Finset.card (Finset.ext fun p => ?_)
    rw [Finset.mem_union, Finset.mem_union, mem_lowPages, mem_stalePages, mem_pagesOf, mem_pagesOf,
      mem_pagesOf, Finset.mem_filter, Finset.mem_range]
    constructor
    · rintro ⟨hp, hpres, hfr⟩
      by_cases hs : p < pagLogInitShared
      · rw [(childTable_present pt old hp (Or.inl hs)).2] at hfr
        exact Or.inl (Or.inl ⟨⟨hp, hlow p hs hfr, hfr⟩, hs⟩)
      · by_cases hz : getFrame pt p = 0
        · rw [getFrame, childTable_stale (Nat.not_lt.mp hs) hz] at hfr
          rw [childTable_stale (Nat.not_lt.mp hs) hz] at hpres
          exact Or.inr ⟨⟨hp, hpres, hfr⟩, Nat.not_lt.mp hs, hz⟩
        · rw [(childTable_present pt old hp (Or.inr hz)).2] at hfr
          exact Or.inl (Or.inr ⟨hp, Nat.not_lt.mp hs, hfr⟩)
    · rintro ((⟨⟨hp, -, hfr⟩, hs⟩ | ⟨hp, -, hfr⟩) | ⟨⟨hp, hpres, hfr⟩, hs, hz⟩)
      · obtain ⟨h₁, h₂⟩ := childTable_present pt old hp (Or.inl hs)
        exact ⟨hp, h₁, h₂.trans hfr⟩
      · obtain ⟨h₁, h₂⟩ := childTable_present pt old hp (Or.inr (hfr ▸ hf0))
        exact ⟨hp, h₁, h₂.trans hfr⟩
      · rw [getFrame, childTable_stale hs hz]
        exact ⟨hp, hpres, hfr⟩
  · -- a stale page has no frame in the parent's table
    rw [Finset.disjoint_left]
    intro p hp hst
    obtain ⟨-, hs, hz⟩ := mem_stalePages.mp hst
    rcases Finset.mem_union.mp hp with hl | hm
    · exact Nat.not_lt.mpr hs (mem_lowPages.mp hl).2
    · exact hf0 ((Finset.mem_filter.mp hm).2.2.symm.trans hz)
  · rw [Finset.disjoint_left]
    intro p hl hm
    exact Nat.not_lt.mpr (Finset.mem_filter.mp hm).2.1 (mem_lowPages.mp hl).2

/-- The table boot starts from maps no segment. -/
theorem pagesOf_initTablePages {M : Machine} (hf : IsShm f) :
    pagesOf (initTablePages M.tasksPage) f = ∅ := by
  refine Finset.eq_empty_of_forall_notMem (fun p hp => ?_)
  obtain ⟨-, -, hfr⟩ := mem_pagesOf.mp hp
  have hge := hf.bounds.1
  rw [getFrame, initTablePages] at hfr
  split_ifs at hfr with hk
  · have hle : (BitVec.ofNat 20 p).toNat ≤ p := by
      rw [BitVec.toNat_ofNat]
      exact Nat.mod_le p _
    replace hfr : (BitVec.ofNat 20 p).toNat = f := hfr
    replace hk : p < 256 := hk.2
    omega
  · replace hfr : 0 = f := hfr
    omega

/-! ### Entries changed -/

theorem pagesOf_congr {pt' : PageTable}
    (h : ∀ p, (pt' p).present = (pt p).present ∧ getFrame pt' p = getFrame pt p) :
    pagesOf pt' f = pagesOf pt f :=
  Finset.filter_congr (fun p _ => by rw [(h p).1, (h p).2])

theorem pagesOf_delSsPag (page : ℕ) : pagesOf (delSsPag pt page) f = (pagesOf pt f).erase page := by
  ext p
  rw [Finset.mem_erase, mem_pagesOf, mem_pagesOf, getFrame, delSsPag_apply]
  split_ifs with hp
  · exact iff_of_false (fun hc => absurd hc.2.1 (by decide)) (fun hc => hc.1 hp)
  · exact (and_iff_right hp).symm

theorem pagesOf_setSsPag {page g : ℕ} (hp : page < totalPages) (hg : g < totalPages)
    (hpres : (pt page).present = false) : pagesOf (setSsPag pt page (g : ℕ)) f
      = if f = g then insert page (pagesOf pt f) else pagesOf pt f := by
  have hframe : (BitVec.ofInt 20 (g : ℤ)).toNat = g := frameField_natCast hg
  have hself : (setSsPag pt page (g : ℕ) page).present = true
      ∧ getFrame (setSsPag pt page (g : ℕ)) page = g := by
    rw [getFrame, setSsPag_apply, if_pos rfl]
    exact ⟨rfl, hframe⟩
  have hother : ∀ p, p ≠ page → setSsPag pt page (g : ℕ) p = pt p := fun p hne => by
    rw [setSsPag_apply, if_neg hne]
  have hnot : page ∉ pagesOf pt f := fun hm => by
    rw [(mem_pagesOf.mp hm).2.1] at hpres
    exact absurd hpres (by decide)
  ext p
  by_cases hpp : p = page
  · subst hpp
    split_ifs with hf
    · rw [mem_pagesOf, hself.1, hself.2]
      exact iff_of_true ⟨hp, rfl, hf.symm⟩ (Finset.mem_insert_self _ _)
    · refine iff_of_false (fun hm => hf ?_) hnot
      rw [← (mem_pagesOf.mp hm).2.2, hself.2]
  · have hsame : p ∈ pagesOf (setSsPag pt page (g : ℕ)) f ↔ p ∈ pagesOf pt f := by
      rw [mem_pagesOf, mem_pagesOf, getFrame, hother p hpp]
      rfl
    split_ifs
    · rw [hsame, Finset.mem_insert]
      exact (or_iff_right hpp).symm
    · exact hsame

/-- The copying branch of the fault handler, where neither frame of the page
is the one looked for. The entry of the borrowed page is put back. -/
theorem pagesOf_privateTable {posicion : ℕ} {frame : ℤ} (h₀ : getFrame pt posicion ≠ f)
    (h₁ : frameField frame ≠ f) : pagesOf (privateTable pt posicion frame) f = pagesOf pt f := by
  ext q
  rw [mem_pagesOf, mem_pagesOf, getFrame]
  by_cases hq : q = posicion
  · have he : privateTable pt posicion frame q = PageTableEntry.mapping frame := if_pos hq
    rw [he, hq]
    exact iff_of_false (fun hc => h₁ hc.2.2) (fun hc => h₀ hc.2.2)
  · by_cases hb : q = paginaAUsar
    · have he : privateTable pt posicion frame q
          = if (pt q).present then (pt q).opened else PageTableEntry.zero := by
        rw [privateTable, if_neg hq, if_pos hb, hb]
      rw [he]
      split_ifs with hpres
      · rw [hpres]
        exact Iff.rfl
      · exact iff_of_false (fun hc => absurd hc.2.1 (by decide)) (fun hc => hpres hc.2.1)
    · rw [privateTable_of_ne pt frame hq hb]
      exact Iff.rfl

theorem IsShm.ne_of_not_fixed {g : ℕ} (h : IsShm f) (hg : ¬ Fixed g) : g ≠ f :=
  fun he => hg (he ▸ h.fixed)

/-- **A page fault** leaves the segments mapped as they are. -/
theorem pagesOf_faulted {M : Machine} {a : Schedule} {m m₁ : Mm} {s : Slot} (hm : Mapped M a m)
    (hs : a.User s) {p : ℕ} (hf : m.Faulted s p m₁) (hshm : IsShm f) :
    m₁.shmMem = m.shmMem ∧ ∀ t, pagesOf (m₁.pagusrTable t) f = pagesOf (m.pagusrTable t) f := by
  cases hf with
  | opened hp hcount =>
    refine ⟨rfl, fun t => pagesOf_congr (fun q => ?_)⟩
    rw [Mm.setTable_apply]
    split_ifs with hts
    · rw [getFrame, setRw_apply, hts]
      split_ifs <;> exact ⟨rfl, rfl⟩
    · exact ⟨rfl, rfl⟩
  | copied hp hframe hcount =>
    obtain ⟨hd₁, hd₂⟩ := hm.data_of_count hs hp hcount
    obtain ⟨hpres, -, hfix⟩ := (hm.user_table s hs).data p hd₁ hd₂
    have hfresh := hm.not_fixed_nextFrame (hm.fixed_privatePhys hfix).1
    rw [Mm.copyOnWrite_eq hp (ne_paginaAUsar hd₂) hpres]
    refine ⟨rfl, fun t => ?_⟩
    dsimp only
    rw [Mm.setTable_apply]
    split_ifs with hts
    · rw [hts]
      exact pagesOf_privateTable (hshm.ne_of_not_fixed hfix) (hshm.ne_of_not_fixed hfresh)
    · rfl

end Pages

/-! ## Over all processes -/

/-- How many pages of the user processes map a frame. -/
def attached (a : Schedule) (m : Mm) (f : ℕ) : ℕ :=
  ∑ s ∈ Finset.univ.filter a.User, (pagesOf (m.pagusrTable s) f).card

/-- **The counts are exact**, of a schedule and a memory. -/
def Exact (a : Schedule) (m : Mm) : Prop :=
  ∀ i < shmLength, (m.shmMem i).referencias = attached a m (shmFrame i)

section Attached

variable {M : Machine} {a a' : Schedule} {m m' : Mm} {s : Slot} {pt : PageTable} {f i page : ℕ}

theorem mem_users : s ∈ Finset.univ.filter a.User ↔ a.User s := by
  rw [Finset.mem_filter]
  exact and_iff_right (Finset.mem_univ s)

theorem attached_congr (hu : ∀ s, a'.User s ↔ a.User s)
    (h : ∀ s, a.User s → pagesOf (m'.pagusrTable s) f = pagesOf (m.pagusrTable s) f) :
    attached a' m' f = attached a m f := by
  have hset : Finset.univ.filter a'.User = Finset.univ.filter a.User :=
    Finset.filter_congr (fun s _ => hu s)
  rw [attached, hset]
  exact Finset.sum_congr rfl (fun s hs => by rw [h s (mem_users.mp hs)])

/-- One process has its table replaced. -/
theorem attached_of_table (hs : a.User s) (h : ∀ t, t ≠ s → m'.pagusrTable t = m.pagusrTable t) :
    attached a m' f + (pagesOf (m.pagusrTable s) f).card
      = attached a m f + (pagesOf (m'.pagusrTable s) f).card := by
  have hmem := mem_users.mpr hs
  have hrest : ∑ t ∈ (Finset.univ.filter a.User).erase s, (pagesOf (m'.pagusrTable t) f).card
      = ∑ t ∈ (Finset.univ.filter a.User).erase s, (pagesOf (m.pagusrTable t) f).card :=
    Finset.sum_congr rfl (fun t ht => by rw [h t (Finset.ne_of_mem_erase ht)])
  rw [attached, attached, ← Finset.add_sum_erase _ _ hmem, ← Finset.add_sum_erase _ _ hmem, hrest]
  omega

/-- A process has come. -/
theorem attached_of_insert (hu : ∀ t, a'.User t ↔ a.User t ∨ t = s) (hs : ¬ a.User s)
    (h : ∀ t, a.User t → pagesOf (m'.pagusrTable t) f = pagesOf (m.pagusrTable t) f) :
    attached a' m' f = attached a m f + (pagesOf (m'.pagusrTable s) f).card := by
  have hset : Finset.univ.filter a'.User = insert s (Finset.univ.filter a.User) := by
    ext t
    rw [Finset.mem_insert, mem_users, mem_users, hu, or_comm]
  rw [attached, hset, Finset.sum_insert (fun hm => hs (mem_users.mp hm)), attached, add_comm]
  refine congrArg (· + _) (Finset.sum_congr rfl (fun t ht => ?_))
  rw [h t (mem_users.mp ht)]

/-- A process has gone. -/
theorem attached_of_erase (hu : ∀ t, a'.User t ↔ a.User t ∧ t ≠ s) (hs : a.User s)
    (h : ∀ t, t ≠ s → m'.pagusrTable t = m.pagusrTable t) :
    attached a' m' f + (pagesOf (m.pagusrTable s) f).card = attached a m f := by
  have hset : Finset.univ.filter a'.User = (Finset.univ.filter a.User).erase s := by
    ext t
    rw [Finset.mem_erase, mem_users, mem_users, hu, and_comm]
  rw [attached, hset, attached, ← Finset.add_sum_erase _ _ (mem_users.mpr hs), add_comm]
  refine congrArg (_ + ·) (Finset.sum_congr rfl (fun t ht => ?_))
  rw [h t (Finset.ne_of_mem_erase ht)]

/-! ## One step -/

theorem IsShm.ne_zero (h : IsShm f) : f ≠ 0 := by
  have hge := h.bounds.1
  omega

theorem isShm_shmFrame (hi : i < shmLength) : IsShm (shmFrame i) := ⟨i, hi, rfl⟩

/-- Neither the counts nor the pages have changed. -/
theorem Exact.of_eq (h : Exact a m) (hu : ∀ s, a'.User s ↔ a.User s)
    (hshm : ∀ i, (m'.shmMem i).referencias = (m.shmMem i).referencias)
    (htab : ∀ f, IsShm f → ∀ s, a.User s →
      pagesOf (m'.pagusrTable s) f = pagesOf (m.pagusrTable s) f) : Exact a' m' := by
  intro i hi
  rw [hshm, h i hi, attached_congr hu (htab _ (isShm_shmFrame hi))]

/-- **Attaching keeps the counts exact.** -/
theorem Exact.attach (h : Exact a m) (hm : Mapped M a m) (hs : a.User s) (hi : i < shmLength)
    (hp : page < totalPages) (hpres : (m.pagusrTable s page).present = false) :
    Exact a (m.attach s i page) := by
  intro j hj
  have htab : (m.attach s i page).pagusrTable s
      = setSsPag (m.pagusrTable s) page (shmFrame i : ℕ) := by
    rw [Mm.attach, hm.shm_addr i hi]
    exact (Mm.setTable_apply m s _ s).trans (if_pos rfl)
  have hnot : page ∉ pagesOf (m.pagusrTable s) (shmFrame j) := fun hmem => by
    rw [(mem_pagesOf.mp hmem).2.1] at hpres
    exact absurd hpres (by decide)
  have hother : ∀ t, t ≠ s → (m.attach s i page).pagusrTable t = m.pagusrTable t :=
    fun t ht => (Mm.setTable_apply m s _ t).trans (if_neg ht)
  have hcard := attached_of_table (f := shmFrame j) hs hother
  rw [htab, pagesOf_setSsPag hp (isShm_shmFrame hi).fixed.lt hpres] at hcard
  have href : ((m.attach s i page).shmMem j).referencias
      = (m.shmMem j).referencias + if j = i then 1 else 0 := by
    show (Function.update m.shmMem i _ j).referencias = _
    rw [Function.update_apply]
    split_ifs with hji
    · rw [hji]
    · rw [add_zero]
  rw [href, h j hj]
  by_cases hji : j = i
  · rw [if_pos (congrArg shmFrame hji), Finset.card_insert_of_notMem hnot] at hcard
    rw [if_pos hji]
    omega
  · rw [if_neg (fun he => hji (shmFrame_injective he))] at hcard
    rw [if_neg hji]
    omega

/-- **Detaching the last reference of a segment that is to be removed keeps
the counts exact.** -/
theorem Exact.detachLast (h : Exact a m) (hm : Mapped M a m) (hs : a.User s)
    (hseg : m.segmentAt s page = some i) (hlast : (m.shmMem i).referencias = 1)
    (hshm : ∀ j, (m'.shmMem j).referencias = if j = i then 0 else (m.shmMem j).referencias)
    (htab : m'.pagusrTable = (m.setTable s (delSsPag (m.pagusrTable s) page)).pagusrTable) :
    Exact a m' := by
  obtain ⟨hp, hframe, hi, -⟩ := hm.page_of_segment hs hseg
  have hpres := (Mm.segmentAt_eq_some hseg).2.1
  intro j hj
  have hother : ∀ t, t ≠ s → m'.pagusrTable t = m.pagusrTable t := by
    intro t ht
    rw [htab]
    exact (Mm.setTable_apply m s _ t).trans (if_neg ht)
  have hcard := attached_of_table (f := shmFrame j) hs hother
  rw [htab, Mm.setTable_apply, if_pos rfl, pagesOf_delSsPag] at hcard
  rw [hshm]
  by_cases hji : j = i
  · subst hji
    have hmem : page ∈ pagesOf (m.pagusrTable s) (shmFrame j) := mem_pagesOf.mpr ⟨hp, hpres, hframe⟩
    have hone := h j hj
    have hpos := Finset.card_pos.mpr ⟨page, hmem⟩
    rw [Finset.card_erase_of_mem hmem] at hcard
    rw [if_pos rfl]
    omega
  · have hnot : page ∉ pagesOf (m.pagusrTable s) (shmFrame j) := fun hmem =>
      hji (shmFrame_injective ((mem_pagesOf.mp hmem).2.2.symm.trans hframe))
    have hone := h j hj
    rw [Finset.erase_eq_of_notMem hnot] at hcard
    rw [if_neg hji]
    omega

/-- Any other reference given up is one too few. -/
theorem Exact.not_addRef (h : Exact a m) (hi : i < shmLength) : ¬ Exact a (m.addRef i (-1)) := by
  intro h'
  have h₁ := h i hi
  have h₂ := h' i hi
  have href : ((m.addRef i (-1)).shmMem i).referencias = (m.shmMem i).referencias + -1 := by
    show (Function.update m.shmMem i _ i).referencias = _
    rw [Function.update_self]
  have hatt : attached a (m.addRef i (-1)) (shmFrame i) = attached a m (shmFrame i) := rfl
  rw [href, hatt] at h₂
  omega

/-- **When a fork keeps the counts exact.** -/
theorem exact_forkOk_iff (h : Exact a m) (hm : Mapped M a m) {c : Slot} {cs : List Slot}
    (hfree : a.free = c :: cs) (hidle : a.current ≠ a.idle) :
    Exact (a.spawn c cs hfree hidle) ((m.withFrames c numPagData).forkPages a.current c)
      ↔ ∀ i < shmLength, lowPages (m.pagusrTable a.current) (shmFrame i) = ∅
          ∧ stalePages (m.pagusrTable a.current) (m.pagusrTable c) (shmFrame i) = ∅ := by
  have hcfree : c ∈ a.free := hfree ▸ List.mem_cons_self
  have hcc : a.current ≠ c := fun he => a.current_notMem.1 (he ▸ hcfree)
  have hcur := a.user_current hidle
  have hmm := Mm.forkPages_withFrames m hcc
  generalize (m.withFrames c numPagData).forkPages a.current c = m' at hmm
  have hchild : m'.pagusrTable c
      = Mm.childTable (m.pagusrTable a.current) (m.pagusrTable c) := by
    rw [hmm]
    exact if_pos rfl
  have hothers : ∀ f t, a.User t → pagesOf (m'.pagusrTable t) f = pagesOf (m.pagusrTable t) f := by
    intro f t ht
    have htc : t ≠ c := fun he => ht.1 (he ▸ hcfree)
    refine pagesOf_congr (fun p => ?_)
    rw [hmm, getFrame]
    dsimp only
    rw [if_neg htc]
    split_ifs with htp
    · rw [htp, Mm.parentTable]
      split_ifs <;> exact ⟨rfl, rfl⟩
    · exact ⟨rfl, rfl⟩
  have href : ∀ i < shmLength, (m'.shmMem i).referencias = (m.shmMem i).referencias
      + mapCount (m.pagusrTable a.current) sharedPages (shmFrame i) := by
    intro i hi
    rw [hmm]
    dsimp only
    rw [if_pos hi, hm.shm_addr i hi]
  refine forall₂_congr (fun i hi => ?_)
  have hcard := attached_of_insert (fun t => Schedule.user_spawn hfree hidle)
    (fun hc => hc.1 hcfree) (hothers (shmFrame i))
  rw [hchild, card_pagesOf_childTable (hm.user_table _ hcur) (isShm_shmFrame hi)] at hcard
  have hone := h i hi
  rw [href i hi, ← Finset.card_eq_zero, ← Finset.card_eq_zero]
  omega

/-- **When an exit keeps the counts exact.** -/
theorem exact_exit_iff (h : Exact a m) (hm : Mapped M a m) (hidle : a.current ≠ a.idle) :
    Exact (a.retire hidle) (m.exitPages a.current)
      ↔ ∀ i < shmLength, lowPages (m.pagusrTable a.current) (shmFrame i) = ∅ := by
  have hd := Mm.exitPages_dropped m a.current
  have hcur := a.user_current hidle
  have hother : ∀ t, t ≠ a.current →
      (m.exitPages a.current).pagusrTable t = m.pagusrTable t := fun _ => Mm.exitPages_other
  have href : ∀ i < shmLength, ((m.exitPages a.current).shmMem i).referencias
      = (m.shmMem i).referencias
        - mapCount (m.pagusrTable a.current) sharedPages (shmFrame i) := by
    intro i hi
    rw [hd.shmMem i, if_pos hi, ← hm.shm_addr i hi]
    rfl
  refine forall₂_congr (fun i hi => ?_)
  have hcard :=
    attached_of_erase (f := shmFrame i) (fun t => Schedule.user_retire hidle) hcur hother
  rw [card_pagesOf (hm.shared a.current) (isShm_shmFrame hi).ne_zero] at hcard
  have hone := h i hi
  rw [href i hi, ← Finset.card_eq_zero]
  omega

/-! ## The kernel -/

/-- What is counted of a kernel is what is counted of its schedule: the idle
task maps no segment. -/
theorem exactReferences_iff {k : Kernel} (hf : k.Follows a) (hm : Mapped M a k.mm) :
    k.ExactReferences ↔ Exact a k.mm := by
  refine forall₂_congr (fun i hi => ?_)
  rw [hm.shm_addr i hi]
  have hlive := Kernel.live_iff hf.threads
  -- slot by slot
  have hslots : (k.mappings (shmFrame i)).card
      = ∑ s ∈ Finset.univ.filter k.Live, (pagesOf (k.ptOf s) (shmFrame i)).card := by
    rw [Kernel.mappings, Finset.card_filter, Finset.sum_product]
    exact Finset.sum_congr rfl (fun s _ => (Finset.card_filter _ _).symm)
  have hcard : attached a k.mm (shmFrame i) = (k.mappings (shmFrame i)).card := by
    rw [hslots]
    refine Finset.sum_subset_zero_on_sdiff (fun s hs => ?_) (fun s hs => ?_) (fun s hs => ?_)
    · exact Finset.mem_filter.mpr ⟨Finset.mem_univ s,
        (hlive s).mpr ((a.live_iff_user s).mpr (Or.inl (mem_users.mp hs)))⟩
    · obtain ⟨hs, hnot⟩ := Finset.mem_sdiff.mp hs
      have hs' := (hlive s).mp (Finset.mem_filter.mp hs).2
      obtain rfl := ((a.live_iff_user s).mp hs').resolve_left (fun hu => hnot (mem_users.mpr hu))
      rw [Kernel.ptOf_eq hf.threads hs', hm.idle_table, pagesOf_initTablePages (isShm_shmFrame hi),
        Finset.card_empty]
    · have hs' := (a.live_iff_user s).mpr (Or.inl (mem_users.mp hs))
      rw [Kernel.ptOf_eq hf.threads hs']
  rw [hcard]

/-- The current process has no segment below the shared region. -/
theorem not_mapsLow_iff {k : Kernel} (hf : k.Follows a) (hm : Mapped M a k.mm) :
    ¬ k.MapsLow ↔ ∀ i < shmLength, lowPages (k.mm.pagusrTable a.current) (shmFrame i) = ∅ := by
  rw [Kernel.MapsLow, Kernel.currentPt_eq hf.threads]
  constructor
  · intro hno i hi
    refine Finset.eq_empty_of_forall_notMem (fun p hp => hno ?_)
    obtain ⟨hp, hlow⟩ := mem_lowPages.mp hp
    obtain ⟨-, hpres, hfr⟩ := mem_pagesOf.mp hp
    exact ⟨p, hlow, hpres, i, hi, hfr.trans (hm.shm_addr i hi).symm⟩
  · rintro hall ⟨p, hp, hpres, i, hi, hfr⟩
    rw [hm.shm_addr i hi] at hfr
    refine Finset.notMem_empty p (hall i hi ▸ mem_lowPages.mpr ⟨mem_pagesOf.mpr ?_, hp⟩)
    exact ⟨hp.trans (by decide), hpres, hfr⟩

/-- The slot of the next fork has no stale page. -/
theorem not_findsStale_iff {k : Kernel} (hf : k.Follows a) (hm : Mapped M a k.mm) {c : Slot}
    {cs : List Slot} (hfree : a.free = c :: cs) :
    ¬ k.FindsStale ↔ ∀ i < shmLength,
      stalePages (k.mm.pagusrTable a.current) (k.mm.pagusrTable c) (shmFrame i) = ∅ := by
  have hhead : k.freeSlots.head? = some c := by
    rw [Kernel.freeSlots_eq hf.threads, hfree]
    rfl
  rw [Kernel.FindsStale, Kernel.currentPt_eq hf.threads, hhead]
  constructor
  · intro hno i hi
    refine Finset.eq_empty_of_forall_notMem (fun p hp => hno ?_)
    obtain ⟨hp, hs, hz⟩ := mem_stalePages.mp hp
    obtain ⟨hlt, hpres, -⟩ := mem_pagesOf.mp hp
    exact ⟨c, rfl, p, hs, hlt, hpres, hz⟩
  · rintro hall ⟨c', hc, p, hs, hlt, hpres, hz⟩
    obtain rfl := Option.some_inj.mp hc
    rcases hm.shared c p hs hlt with ⟨hnot, -⟩ | ⟨-, -, -, i, hi, hfr⟩
    · rw [hpres] at hnot
      exact absurd hnot (by decide)
    · exact Finset.notMem_empty p
        (hall i hi ▸ mem_stalePages.mpr ⟨mem_pagesOf.mpr ⟨hlt, hpres, hfr⟩, hs, hz⟩)

/-! ## Runs -/

/-- **A step from exact counts leads to exact counts exactly if it is one
that keeps them.** -/
theorem exact_outcome_iff {k : Kernel} (hf : k.Follows a) (hm : Mapped M a k.mm)
    (h : Exact a k.mm) {e : Event} (hen : e.byTask = true → a.current ≠ a.idle)
    (ho : Outcome a k.mm e a' m') (hdown : m'.stuck = false) :
    Exact a' m' ↔ KeepsReferences k e := by
  have hfree := Kernel.freeSlots_eq hf.threads
  have hpt := hf.threads.getPt_current
  cases ho with
  | stay | key | load | read | getStats => exact iff_of_true h trivial
  | switch | yield =>
    exact iff_of_true (h.of_eq (fun s => Schedule.user_rotate) (fun _ => rfl)
      (fun _ _ _ _ => rfl)) trivial
  | store => exact iff_of_true h trivial
  | storeFault addr b m₁ loc hcan hfault =>
    have hkeep := fun f hs => pagesOf_faulted (f := f) hm (a.user_current (hen rfl)) hfault hs
    refine iff_of_true (h.of_eq (fun _ => Iff.rfl) (fun i => ?_) (fun f hs t _ => (hkeep f hs).2 t))
      trivial
    rw [(hkeep (shmFrame 0) ⟨0, by decide, rfl⟩).1]
  | fault cr2 m₁ hcan hfault =>
    have hkeep := fun f hs => pagesOf_faulted (f := f) hm (a.user_current (hen rfl)) hfault hs
    refine iff_of_true (h.of_eq (fun _ => Iff.rfl) (fun i => ?_) (fun f hs t _ => (hkeep f hs).2 t))
      trivial
    rw [(hkeep (shmFrame 0) ⟨0, by decide, rfl⟩).1]
  | forkNone ebp hnone => exact iff_of_true h (Or.inl (hfree.trans hnone))
  | forkFail ebp c cs hcons hlen =>
    rw [hm.forkFail_mm (hcons ▸ List.mem_cons_self) hlen]
    exact iff_of_true (h.of_eq (fun s => Schedule.user_giveUp hcons) (fun _ => rfl)
      (fun _ _ _ _ => rfl)) (Or.inr (Or.inl hlen))
  | forkOk ebp c cs hcons hidle hlen =>
    rw [exact_forkOk_iff h hm hcons hidle]
    show _ ↔ k.freeSlots = [] ∨ _ ∨ _
    rw [not_mapsLow_iff hf hm, not_findsStale_iff hf hm hcons, hfree, hcons]
    constructor
    · intro hall
      exact Or.inr (Or.inr ⟨fun i hi => (hall i hi).1, fun i hi => (hall i hi).2⟩)
    · rintro (hnil | hlt | hboth)
      · exact absurd hnil (List.cons_ne_nil c cs)
      · exact absurd hlt (Nat.not_lt.mpr hlen)
      · exact fun i hi => ⟨hboth.1 i hi, hboth.2 i hi⟩
  | exit ebp hidle =>
    rw [exact_exit_iff h hm hidle]
    exact (not_mapsLow_iff hf hm).symm
  | shmat id addr =>
    refine iff_of_true ?_ trivial
    rcases Mm.sysShmat_cases hdown with he | ⟨i, page, hi, hlt, hpres, -, -, he⟩
    · rw [he]
      exact h
    · rw [he]
      exact h.attach hm (a.user_current (hen rfl)) hi hlt hpres
  | shmdt addr =>
    have hcond : KeepsReferences k (.shmdt addr) ↔
        ∀ i, k.mm.segmentAt a.current (Mm.shmdtPage addr) = some i →
          (k.mm.shmMem i).aBorrar = true ∧ (k.mm.shmMem i).referencias = 1 := by
      rw [KeepsReferences, hpt]
    rw [hcond]
    rcases Mm.sysShmdt_cases hdown with ⟨hnone, he⟩ | ⟨i, hseg, hlast⟩
    · rw [he, hnone]
      exact iff_of_true h (fun i hi => absurd hi (by simp))
    · have hi := (Mm.segmentAt_eq_some hseg).2.2.1
      simp only [hseg, Option.some_inj, forall_eq']
      rcases hlast with ⟨hearly, he⟩ | ⟨hlast, ram, he⟩
      · rw [he]
        refine iff_of_false (h.not_addRef hi) (fun hc => ?_)
        rcases hearly with hmark | hcount
        · rw [hc.1] at hmark
          exact absurd hmark (by decide)
        · exact hcount hc.2
      · have hu := a.user_current (hen rfl)
        refine iff_of_true (h.detachLast hm hu hseg hlast.2 (fun j => ?_) ?_) hlast
        · rw [he]
          show (Function.update k.mm.shmMem i _ j).referencias = _
          rw [Function.update_apply]
          split_ifs <;> rfl
        · rw [he]
  | shmrm id =>
    refine iff_of_true ?_ trivial
    rcases Mm.sysShmrm_cases hdown with he | ⟨i, -, he⟩
    · rw [he]
      exact h
    · refine h.of_eq (fun _ => Iff.rfl) (fun j => ?_) (fun _ _ _ _ => by rw [he])
      rw [he]
      show (Function.update k.mm.shmMem i _ j).referencias = _
      rw [Function.update_apply]
      split_ifs with hj
      · rw [hj]
      · rfl

/-- At boot no segment is mapped. -/
theorem pagesOf_boot (M : Machine) (hs : bootSchedule.User s) (hi : i < shmLength) :
    pagesOf (M.boot.mm.pagusrTable s) (shmFrame i) = ∅ := by
  rw [boot_mm]
  dsimp only
  rw [if_pos (user_boot.mp hs)]
  refine Finset.eq_empty_of_forall_notMem (fun p hp => ?_)
  obtain ⟨hlt, hpres, hfr⟩ := mem_pagesOf.mp hp
  by_cases hpage : pagLogInitCode ≤ p ∧ p < pagLogInitShared
  · have hcode := Mapped.bootTable_frame M hpage.1 hpage.2
    have hp : p < 284 := hpage.2
    rw [show (bootTable M p).frame = shmFrame i from hfr] at hcode
    unfold shmFrame codeFrame at hcode
    omega
  · rw [getFrame, bootTable, if_neg hpage] at hfr
    rw [bootTable, if_neg hpage] at hpres
    exact Finset.notMem_empty p
      (pagesOf_initTablePages (M := M) (isShm_shmFrame hi) ▸ mem_pagesOf.mpr ⟨hlt, hpres, hfr⟩)

/-- At boot no segment is referenced and none is mapped. -/
theorem exact_boot (M : Machine) : Exact bootSchedule M.boot.mm := by
  intro i hi
  have hatt : attached bootSchedule M.boot.mm (shmFrame i) = 0 :=
    Finset.sum_eq_zero (fun s hs => by rw [pagesOf_boot M (mem_users.mp hs) hi, Finset.card_empty])
  rw [hatt, boot_mm]
  dsimp only
  rw [if_pos hi]
  rfl

end Attached

/-- **The reference counts are exact in every state of a run exactly if each
of its steps is one that keeps them.** -/
theorem exact_references_iff (M : Machine) (es : List Event) (k : Kernel)
    (h : Run Kernel.step (fun _ _ => True) M.boot es k) :
    (∀ bs cs u, es = bs ++ cs → Run Kernel.step (fun _ _ => True) M.boot bs u →
        u.ExactReferences)
      ↔ Run Kernel.step KeepsReferences M.boot es k := by
  have hstep : ∀ (k : Kernel) (e : Event) (k' : Kernel), (∃ a, k.Follows a ∧ Mapped M a k.mm) →
      True → k.step e = some k' → ∃ a, k'.Follows a ∧ Mapped M a k'.mm := by
    rintro k e k' ⟨a, hf, hm⟩ - hst
    obtain ⟨a', hf', ho, hen⟩ := hf.step hst
    exact ⟨a', hf', hm.outcome hen ho hf'.mm_down⟩
  have hboot := (exactReferences_iff (follows_boot M) (Mapped.boot M)).mpr (exact_boot M)
  refine (h.always_iff (Q := KeepsReferences) hstep ?_ ⟨_, follows_boot M, Mapped.boot M⟩
    hboot).trans ⟨fun hr => hr.mono (fun _ _ hP => hP.2), fun hr => hr.mono
      (fun _ _ hP => ⟨trivial, hP⟩)⟩
  rintro k e k' ⟨a, hf, hm⟩ hex - hst
  obtain ⟨a', hf', ho, hen⟩ := hf.step hst
  rw [exactReferences_iff hf' (hm.outcome hen ho hf'.mm_down)]
  exact exact_outcome_iff hf hm ((exactReferences_iff hf hm).mp hex) hen ho hf'.mm_down

/-! ## The first segment -/

/-- The first task attaches segment 0 at the first page of the shared
region. -/
theorem exists_first_attach (M : Machine) :
    ∃ k, M.boot.step (.shmat 0#32 0x11c000#32) = some k ∧ k.Follows bootSchedule
      ∧ k.mm = M.boot.mm.attach 1 0 284 := by
  have hpres : (M.boot.mm.pagusrTable 1 284).present = false := by
    rw [boot_mm]
    dsimp only
    have hge : numPagKernel ≤ 284 := by decide
    rw [if_pos rfl, bootTable, if_neg (by decide), Mapped.initTablePages_of_ge M hge]
    rfl
  have hpage : ((0x11c000#32).sshiftRight 12).toNat = 284 := by decide
  have hres : (M.boot.mm.sysShmat 1 0#32 0x11c000#32).2 = M.boot.mm.attach 1 0 284 := by
    rw [Mm.sysShmat_absent ⟨by decide, by decide, by decide⟩ (by rw [hpage]; decide)
      (by rw [hpage]; exact hpres), hpage]
    rfl
  refine Kernel.exists_shmat (follows_boot M) (by decide) hres ?_
    (((countsWithin_boot M).attach 1 0 284).fit (by decide))
  rw [Mm.attach_stuck]
  exact (follows_boot M).mm_down

/-- A run that attaches a segment keeps the counts exact. -/
theorem exact_references_iff_attach :
    ∃ k, Run Kernel.step (fun _ _ => True) Machine.sample.boot [.shmat 0#32 0x11c000#32] k
      ∧ k.ExactReferences := by
  obtain ⟨k, hst, -, -⟩ := exists_first_attach Machine.sample
  have hrun : Run Kernel.step (fun _ _ => True) Machine.sample.boot [.shmat 0#32 0x11c000#32] k :=
    Run.single trivial hst
  have hkeep : Run Kernel.step KeepsReferences Machine.sample.boot [.shmat 0#32 0x11c000#32] k :=
    Run.single trivial hst
  exact ⟨k, hrun, (exact_references_iff Machine.sample _ k hrun).mpr hkeep _ [] k rfl hrun⟩

/-- **A segment detached twice** is still mapped, and its count is below
zero. -/
theorem not_exact_references_detach :
    ∃ k, Run Kernel.step (fun _ _ => True) Machine.sample.boot
        [.shmat 0#32 0x11c000#32, .shmdt 0x11c000#32, .shmdt 0x11c000#32] k
      ∧ (k.mm.shmMem 0).referencias = -1 ∧ ¬ k.ExactReferences := by
  obtain ⟨k₁, hst₁, hf₁, hmm₁⟩ := exists_first_attach Machine.sample
  have hidle : bootSchedule.current ≠ bootSchedule.idle := by decide
  set m := Machine.sample.boot.mm.attach 1 0 284 with hm
  have hseg : m.segmentAt 1 (Mm.shmdtPage 0x11c000#32) = some 0 := by
    rw [hm, boot_mm]
    decide
  have hmark : (m.shmMem 0).aBorrar = false := by
    rw [hm, boot_mm]
    rfl
  have href : (m.shmMem 0).referencias = 1 := by
    rw [hm, boot_mm]
    rfl
  have hdown : m.stuck = false := by
    rw [hm, Mm.attach_stuck]
    exact (follows_boot Machine.sample).mm_down
  have hcounts : m.CountsWithin 1 := (countsWithin_boot Machine.sample).attach 1 0 284
  have hcounts₂ : (m.addRef 0 (-1)).CountsWithin 2 := hcounts.addRef 0 (by decide) (by decide)
  -- the first detach counts the reference down and leaves the page mapped
  obtain ⟨k₂, hst₂, hf₂, hmm₂⟩ := Kernel.exists_shmdt hf₁ hidle 0x11c000#32
    (m := m.addRef 0 (-1)) (by rw [hmm₁]; exact Mm.sysShmdt_unmarked hseg hmark)
    (by rw [Mm.addRef_stuck]; exact hdown) (hcounts₂.fit (by decide))
  have hseg₂ : (m.addRef 0 (-1)).segmentAt 1 (Mm.shmdtPage 0x11c000#32) = some 0 := by
    rw [hm, boot_mm]
    decide
  have hmark₂ : ((m.addRef 0 (-1)).shmMem 0).aBorrar = false := by
    rw [Mm.addRef_self]
    dsimp only
    exact hmark
  obtain ⟨k₃, hst₃, hf₃, hmm₃⟩ := Kernel.exists_shmdt hf₂ hidle 0x11c000#32
    (m := (m.addRef 0 (-1)).addRef 0 (-1))
    (by rw [hmm₂]; exact Mm.sysShmdt_unmarked hseg₂ hmark₂)
    (by rw [Mm.addRef_stuck, Mm.addRef_stuck]; exact hdown)
    ((hcounts₂.addRef 0 (by decide) (by decide)).fit (by decide))
  have hneg : (k₃.mm.shmMem 0).referencias = -1 := by
    rw [hmm₃, Mm.addRef_self, Mm.addRef_self, href]
    rfl
  refine ⟨k₃, Run.snoc (Run.snoc (Run.single trivial hst₁) trivial hst₂) trivial hst₃, hneg,
    fun hex => ?_⟩
  have hcount := hex 0 (by decide)
  rw [hneg] at hcount
  omega

end ZeOS.Practica
