import ZeOS.Practica.SharedMemory
import ZeOS.Practica.TableBounds

/-!
# Where a segment is attached and what detaching undoes

`sys_shmat` takes the first page that is not present from the one it is
asked for. It does not look at what kind of page that is, and below the
shared region there are pages nobody maps: page 0 and the guard pages. The
segment ends up in the shared region exactly if no page below it is free
from the requested one on.

`sys_shmdt` returns before it unmaps anything unless the segment is marked
for removal. What a successful attachment has mapped, detaching an unmarked
segment leaves mapped.
-/

namespace ZeOS.Practica

/-- The first page from `access` on that is not present. -/
structure IsFirstFree (pt : PageTable) (access page : ℕ) : Prop where
  ge : access ≤ page
  lt : page < totalPages
  absent : (pt page).present = false
  first : ∀ q, access ≤ q → q < page → (pt q).present = true

namespace Mm

theorem findFreePage_eq_some_iff {pt : PageTable} {access page : ℕ} :
    findFreePage pt access = some page ↔ IsFirstFree pt access page := by
  have hle : access ≤ page → page < totalPages →
      page < access + (totalPages - access) := by omega
  rw [findFreePage, List.find?_range'_eq_some, List.mem_range'_1]
  constructor
  · rintro ⟨hp, ⟨hge, hlt⟩, hfirst⟩
    refine ⟨hge, by omega, by simpa using hp, fun q h₁ h₂ => ?_⟩
    simpa using hfirst q h₁ h₂
  · rintro ⟨hge, hlt, hp, hfirst⟩
    refine ⟨by simpa using hp, ⟨hge, hle hge hlt⟩, fun q h₁ h₂ => ?_⟩
    simpa using hfirst q h₁ h₂

theorem findFreePage_eq_none_iff {pt : PageTable} {access : ℕ} :
    findFreePage pt access = none ↔ ∀ p, access ≤ p → p < totalPages → (pt p).present = true := by
  rw [findFreePage, List.find?_eq_none]
  constructor
  · intro h p h₁ h₂
    have hp := h p (List.mem_range'_1.mpr ⟨h₁, by omega⟩)
    simpa using hp
  · intro h p hp
    rw [List.mem_range'_1] at hp
    simpa using h p hp.1 (by omega)

theorem isFirstFree_unique {pt : PageTable} {access p q : ℕ} (hp : IsFirstFree pt access p)
    (hq : IsFirstFree pt access q) : p = q :=
  Option.some_inj.mp
    ((findFreePage_eq_some_iff.mpr hp).symm.trans (findFreePage_eq_some_iff.mpr hq))

variable {m : Mm} {s : Slot} {id addr : DWord}

/-- The page `sys_shmat` computes, where it is one of the table. -/
theorem sshiftRight_eq_pageOf (h : pageOf addr < totalPages) :
    (addr.sshiftRight 12).toNat = pageOf addr := by
  have hmsb : addr.msb = false := by
    rw [BitVec.msb_eq_false_iff_two_mul_lt]
    rw [pageOf_eq] at h
    simp only [totalPages, pageSize] at h
    omega
  rw [BitVec.sshiftRight_eq_of_msb_false hmsb]
  rfl

/-- **`sys_shmat` where a page is free**, whether or not it is the one asked
for: the first such page is taken. -/
theorem sysShmat_of_firstFree (hacc : ShmatAccepts id addr) {page : ℕ}
    (hfirst : IsFirstFree (m.pagusrTable s) (pageOf addr) page) :
    m.sysShmat s id addr = (((page * pageSize : ℕ) : ℤ), m.attach s id.toNat page) := by
  have hlt : pageOf addr < totalPages := hfirst.ge.trans_lt hfirst.lt
  rw [sysShmat_of_accepts hacc ((sshiftRight_lt_iff addr).mpr hlt), sshiftRight_eq_pageOf hlt,
    findFreePage_eq_some_iff.mpr hfirst]
  rfl

/-- **`sys_shmat` where no page is free** from the requested one on. -/
theorem sysShmat_of_full (hacc : ShmatAccepts id addr) (hlt : pageOf addr < totalPages)
    (hfull : ∀ p, pageOf addr ≤ p → p < totalPages → (m.pagusrTable s p).present = true) :
    m.sysShmat s id addr = (-eINVAL, m) := by
  rw [sysShmat_of_accepts hacc ((sshiftRight_lt_iff addr).mpr hlt), sshiftRight_eq_pageOf hlt,
    findFreePage_eq_none_iff.mpr hfull]
  rfl

/-- The page asked for, if it is free. -/
theorem isFirstFree_self {pt : PageTable} {page : ℕ} (hlt : page < totalPages)
    (habs : (pt page).present = false) : IsFirstFree pt page page :=
  ⟨le_rfl, hlt, habs, fun _ h₁ h₂ => absurd h₁ (Nat.not_le.mpr h₂)⟩

/-! ## Attaching -/

/-- What an attachment of segment `i` at a page of a process leaves: the
frame of the segment at that page, no other entry of any table changed, and
one reference more. -/
structure AttachedAt (m : Mm) (s : Slot) (i page : ℕ) (m' : Mm) : Prop where
  present : (m'.pagusrTable s page).present = true
  frame : getFrame (m'.pagusrTable s) page = (m.shmMem i).shmMemFrameAddr
  other : ∀ t q, ¬ (t = s ∧ q = page) → m'.pagusrTable t q = m.pagusrTable t q
  references : (m'.shmMem i).referencias = (m.shmMem i).referencias + 1

/-- **`sys_shmat` maps into the shared region**: it returns the address of
the requested page if that one is free and else of the first free page above
it, where such a page lies in the shared region, and fails without a trace
where there is none. -/
structure MapsInRegion (m : Mm) (s : Slot) (id addr : DWord) : Prop where
  success : ∀ a, 0 ≤ a → (m.sysShmat s id addr).1 = a →
    ∃ page, a = (page * pageSize : ℕ) ∧ pagLogInitShared ≤ page
      ∧ IsFirstFree (m.pagusrTable s) (pageOf addr) page
      ∧ m.AttachedAt s id.toNat page (m.sysShmat s id addr).2
  failure : (m.sysShmat s id addr).1 < 0 ↔
    ¬ ∃ page, pagLogInitShared ≤ page ∧ IsFirstFree (m.pagusrTable s) (pageOf addr) page
  unchanged : (m.sysShmat s id addr).1 < 0 → (m.sysShmat s id addr).2 = m

/-- The entry of a page a segment is attached at. -/
theorem attach_entry (m : Mm) (s : Slot) (i page : ℕ) :
    (m.attach s i page).pagusrTable s page
      = PageTableEntry.mapping (m.shmMem i).shmMemFrameAddr := by
  show (m.setTable s _).pagusrTable s page = _
  rw [setTable_apply, if_pos rfl, setSsPag_apply, if_pos rfl]
  rfl

theorem attach_present (m : Mm) (s : Slot) (i page : ℕ) :
    ((m.attach s i page).pagusrTable s page).present = true := by
  rw [attach_entry]
  rfl

/-- An attachment leaves the other pages. -/
theorem attach_entry_other (m : Mm) {s : Slot} {i page p : ℕ} (hp : p ≠ page) :
    (m.attach s i page).pagusrTable s p = m.pagusrTable s p := by
  show (m.setTable s _).pagusrTable s p = _
  rw [setTable_apply, if_pos rfl, setSsPag_apply, if_neg hp]

/-- An attachment leaves the tables of the others. -/
theorem attach_other (m : Mm) {s t : Slot} {i page : ℕ} (ht : t ≠ s) :
    (m.attach s i page).pagusrTable t = m.pagusrTable t := by
  show (m.setTable s _).pagusrTable t = _
  rw [setTable_apply, if_neg ht]

/-- An attachment moves no segment. -/
theorem attach_addr (m : Mm) (s : Slot) (i page j : ℕ) :
    ((m.attach s i page).shmMem j).shmMemFrameAddr = (m.shmMem j).shmMemFrameAddr := by
  show (Function.update m.shmMem i _ j).shmMemFrameAddr = _
  rw [Mapped.update_shmMemFrameAddr m.shmMem i]
  rfl

/-- An attachment of a segment whose frame fits the field of an entry. -/
theorem attachedAt_attach {i page : ℕ} (hf : (m.shmMem i).shmMemFrameAddr < totalPages) :
    m.AttachedAt s i page (m.attach s i page) := by
  refine ⟨attach_present m s i page, ?_, fun t q hne => ?_, ?_⟩
  · rw [getFrame, attach_entry]
    exact frameField_natCast hf
  · show (m.setTable s _).pagusrTable t q = _
    rw [setTable_apply]
    split_ifs with ht
    · rw [setSsPag_apply, if_neg (fun hq => hne ⟨ht, hq⟩), ht]
    · rfl
  · show (Function.update m.shmMem i _ i).referencias = _
    rw [Function.update_self]

/-- **What decides where `sys_shmat` maps**: no page below the shared region
is free from the requested one on. -/
theorem mapsInRegion_iff (hacc : ShmatAccepts id addr) (hlt : pageOf addr < totalPages)
    (hf : (m.shmMem id.toNat).shmMemFrameAddr < totalPages) :
    m.MapsInRegion s id addr
      ↔ ∀ p, pageOf addr ≤ p → p < pagLogInitShared → (m.pagusrTable s p).present = true := by
  cases hfree : findFreePage (m.pagusrTable s) (pageOf addr) with
  | none =>
    have hall := findFreePage_eq_none_iff.mp hfree
    have hres := sysShmat_of_full hacc hlt hall
    refine iff_of_true ⟨fun a ha he => ?_, ?_, fun _ => by rw [hres]⟩
      (fun p h₁ h₂ => hall p h₁ (h₂.trans (by decide)))
    · rw [hres] at he
      have hneg : (0 : ℤ) ≤ -eINVAL := ha.trans_eq he.symm
      exact absurd hneg (by decide)
    · rw [hres]
      refine iff_of_true (show -eINVAL < 0 by decide) ?_
      rintro ⟨page, -, hfirst⟩
      have hpres := hall page hfirst.ge hfirst.lt
      rw [hfirst.absent] at hpres
      exact absurd hpres (by decide)
  | some page =>
    have hfirst := findFreePage_eq_some_iff.mp hfree
    have hres := sysShmat_of_firstFree hacc hfirst
    have hnonneg : (0 : ℤ) ≤ ((page * pageSize : ℕ) : ℤ) := Int.natCast_nonneg _
    constructor
    · intro h p h₁ h₂
      -- the address returned is that of the page the search finds
      obtain ⟨page', he, hge, hfirst', -⟩ := h.success _ hnonneg (by rw [hres])
      obtain rfl := isFirstFree_unique hfirst hfirst'
      exact hfirst.first p h₁ (h₂.trans_le hge)
    · intro hall
      have hge : pagLogInitShared ≤ page := by
        by_contra hnot
        have hpres := hall page hfirst.ge (Nat.not_le.mp hnot)
        rw [hfirst.absent] at hpres
        exact absurd hpres (by decide)
      refine ⟨fun a ha he => ?_, ?_, fun hneg => ?_⟩
      · rw [hres] at he ⊢
        exact ⟨page, he.symm, hge, hfirst, attachedAt_attach hf⟩
      · rw [hres]
        exact iff_of_false (Int.not_lt.mpr hnonneg) (not_not.mpr ⟨page, hge, hfirst⟩)
      · rw [hres] at hneg
        exact absurd hneg (Int.not_lt.mpr hnonneg)

/-! ## Detaching -/

/-- A page of the current table with a segment: `sys_shmdt` returns 0. -/
theorem sysShmdt_fst {cr3 : Slot} {i : ℕ} (hseg : m.segmentAt s (pageOf addr) = some i) :
    (m.sysShmdt cr3 s addr).1 = 0 := by
  rw [← shmdtPage_eq] at hseg
  exact (sysShmdt_some hseg).1

theorem attach_unmarked {i page : ℕ} (h : (m.shmMem i).aBorrar = false) :
    ((m.attach s i page).shmMem i).aBorrar = false := by
  show (Function.update m.shmMem i _ i).aBorrar = false
  rw [Function.update_self]
  exact h

/-- The count of a segment does not decide where it is found. -/
theorem segmentAt_addRef (m : Mm) (s : Slot) (i : ℕ) (d : ℤ) (page : ℕ) :
    (m.addRef i d).segmentAt s page = m.segmentAt s page := by
  have haddr : ∀ j, ((m.addRef i d).shmMem j).shmMemFrameAddr
      = (m.shmMem j).shmMemFrameAddr :=
    Mapped.update_shmMemFrameAddr m.shmMem i rfl
  unfold segmentAt
  simp only [haddr]
  rfl

/-- **Detaching undoes attaching**: where `sys_shmat` returns an address,
`sys_shmdt` of it returns 0 and gives back the caller's page table and the
segments, and a second one is refused. -/
def DetachUndoes (m : Mm) (cr3 s : Slot) (id addr : DWord) : Prop :=
  ∀ a : DWord, (m.sysShmat s id addr).1 = a.toNat →
    let m₁ := (m.sysShmat s id addr).2
    let m₂ := (m₁.sysShmdt cr3 s a).2
    (m₁.sysShmdt cr3 s a).1 = 0 ∧ m₂.pagusrTable s = m.pagusrTable s ∧ m₂.shmMem = m.shmMem
      ∧ m₂.sysShmdt cr3 s a = (-eCANCELED, m₂)

/-- The segment found at a page is the one whose frame it maps. -/
theorem segmentAt_of_frame (haddr : ∀ i < shmLength, (m.shmMem i).shmMemFrameAddr = shmFrame i)
    {i page : ℕ} (hi : i < shmLength) (hlt : page < totalPages)
    (hpres : (m.pagusrTable s page).present = true)
    (hframe : getFrame (m.pagusrTable s) page = (m.shmMem i).shmMemFrameAddr) :
    m.segmentAt s page = some i := by
  rw [segmentAt, if_pos ⟨hlt, hpres⟩, hframe, List.find?_range_eq_some]
  refine ⟨decide_eq_true rfl, List.mem_range.mpr hi, fun j hj => ?_⟩
  -- no segment before it has its frame
  rw [Bool.not_eq_true', decide_eq_false_iff_not, haddr i hi, haddr j (hj.trans hi)]
  exact fun he => Nat.ne_of_lt hj (shmFrame_injective he)

/-- The segment attached at a page is the one found there. -/
theorem segmentAt_attach {M : Machine} {a : Schedule} (h : Mapped M a m) {i page : ℕ}
    (hi : i < shmLength) (hlt : page < totalPages) :
    (m.attach s i page).segmentAt s page = some i := by
  have hlt' : (m.shmMem i).shmMemFrameAddr < totalPages := by
    rw [h.shm_addr i hi]
    exact (IsShm.fixed ⟨i, hi, rfl⟩).lt
  have hatt : m.AttachedAt s i page (m.attach s i page) := attachedAt_attach hlt'
  have haddr := attach_addr m s i page
  exact segmentAt_of_frame (fun j hj => (haddr j).trans (h.shm_addr j hj)) hi hlt hatt.present
    (hatt.frame.trans (haddr i).symm)

/-- **Detaching an unmarked segment leaves it mapped.** -/
theorem present_of_detach {M : Machine} {a : Schedule} (h : Mapped M a m) (cr3 : Slot)
    {i page : ℕ} (hi : i < shmLength) (hlt : page < totalPages)
    (hmark : (m.shmMem i).aBorrar = false) {b : DWord} (hb : pageOf b = page) :
    ((((m.attach s i page).sysShmdt cr3 s b).2).pagusrTable s page).present = true := by
  have hseg : (m.attach s i page).segmentAt s (shmdtPage b) = some i := by
    rw [shmdtPage_eq, hb]
    exact segmentAt_attach h hi hlt
  rw [sysShmdt_unmarked hseg (attach_unmarked hmark)]
  exact attach_present m s i page

/-- The address of a page of the table. -/
theorem pageOf_page {page : ℕ} (hlt : page < totalPages) :
    pageOf (BitVec.ofNat 32 (page * pageSize)) = page
      ∧ (BitVec.ofNat 32 (page * pageSize)).toNat = page * pageSize := by
  have hsmall : page * pageSize < 2 ^ 32 := by
    simp only [totalPages, pageSize] at *
    omega
  have hnat : (BitVec.ofNat 32 (page * pageSize)).toNat = page * pageSize := by
    rw [BitVec.toNat_ofNat]
    exact Nat.mod_eq_of_lt hsmall
  refine ⟨?_, hnat⟩
  rw [pageOf_eq, hnat]
  exact Nat.mul_div_cancel page (by decide)

/-- **Detaching undoes attaching only where nothing is attached**: no page
of the table is free from the requested one on. -/
theorem detachUndoes_iff {M : Machine} {a : Schedule} (h : Mapped M a m) {cr3 : Slot}
    (hacc : ShmatAccepts id addr) (hlt : pageOf addr < totalPages)
    (hmark : (m.shmMem id.toNat).aBorrar = false) :
    m.DetachUndoes cr3 s id addr
      ↔ ∀ p, pageOf addr ≤ p → p < totalPages → (m.pagusrTable s p).present = true := by
  rw [← findFreePage_eq_none_iff]
  cases hfree : findFreePage (m.pagusrTable s) (pageOf addr) with
  | none =>
    have hres := sysShmat_of_full hacc hlt (findFreePage_eq_none_iff.mp hfree)
    refine iff_of_true (fun b hb => ?_) rfl
    rw [hres] at hb
    have hneg : (0 : ℤ) ≤ -eINVAL := (Int.natCast_nonneg b.toNat).trans_eq hb.symm
    exact absurd hneg (by decide)
  | some page =>
    have hfirst := findFreePage_eq_some_iff.mp hfree
    have hres := sysShmat_of_firstFree hacc hfirst
    refine iff_of_false (fun hall => ?_) (Option.some_ne_none page)
    obtain ⟨hpage, hnat⟩ := pageOf_page hfirst.lt
    obtain ⟨-, htab, -⟩ := hall (BitVec.ofNat 32 (page * pageSize)) (by rw [hres, hnat])
    have hpres := present_of_detach (s := s) h cr3 hacc.id_lt hfirst.lt hmark hpage
    rw [hres] at htab
    dsimp only at htab
    rw [htab, hfirst.absent] at hpres
    exact absurd hpres (by decide)

end Mm

/-! ## Reachable states -/

/-- The page of an address below the end of the table. -/
theorem pageOf_lt {addr : DWord} (h : addr.toNat < totalPages * pageSize) :
    pageOf addr < totalPages := by
  rw [pageOf_eq]
  exact Nat.div_lt_of_lt_mul (by rwa [Nat.mul_comm])

/-- **`sys_shmat` maps into the shared region exactly if no page below it is
free from the requested one on.** -/
theorem maps_in_region_iff (M : Machine) (k : Kernel) (h : Reachable M k) (id addr : DWord)
    (hacc : Mm.ShmatAccepts id addr) (hlt : addr.toNat < totalPages * pageSize) :
    k.mm.MapsInRegion k.currentPtSlot id addr
      ↔ ∀ p, pageOf addr ≤ p → p < pagLogInitShared → (k.currentPt p).present = true := by
  obtain ⟨a, -, hm⟩ := h.mapped
  refine Mm.mapsInRegion_iff hacc (pageOf_lt hlt) ?_
  rw [hm.shm_addr _ hacc.id_lt]
  exact (IsShm.fixed ⟨_, hacc.id_lt, rfl⟩).lt

/-- The first page of the shared region. -/
theorem maps_in_region_iff_first :
    Machine.sample.boot.mm.MapsInRegion Machine.sample.boot.currentPtSlot 0#32 0x11c000#32 := by
  refine (maps_in_region_iff Machine.sample _ ⟨[], Run.nil _⟩ 0#32 0x11c000#32
    ⟨by decide, by decide, by decide⟩ (by decide)).mpr (fun p h₁ h₂ => ?_)
  have hpage : pageOf 0x11c000#32 = pagLogInitShared := by decide
  exact absurd (hpage ▸ h₁) (Nat.not_le.mpr h₂)

/-- The slot of the current table is that of the current process. -/
theorem Kernel.currentPtSlot_eq {k : Kernel} {a : Schedule} (h : k.sched.Threads a) :
    k.currentPtSlot = a.current := h.getPt_current

/-- The table of the current process, where its slot is known. -/
theorem Kernel.Follows.currentPt {k : Kernel} {a : Schedule} {s : Slot} (hf : k.Follows a)
    (hs : a.current = s) : k.currentPtSlot = s ∧ k.currentPt = k.mm.pagusrTable s := by
  subst hs
  exact ⟨Kernel.currentPtSlot_eq hf.threads, Kernel.currentPt_eq hf.threads⟩

/-- **Page 0 is mapped**: the first process asks for it and gets it. -/
theorem not_maps_in_region_null :
    Reachable Machine.sample Machine.sample.boot
      ∧ (Machine.sample.boot.mm.sysShmat Machine.sample.boot.currentPtSlot 0#32 0#32).1 = 0
      ∧ ¬ Machine.sample.boot.mm.MapsInRegion Machine.sample.boot.currentPtSlot 0#32 0#32 := by
  have hacc : Mm.ShmatAccepts 0#32 0#32 := ⟨by decide, by decide, by decide⟩
  have hpage : pageOf 0#32 = 0 := by decide
  have habs : (Machine.sample.boot.mm.pagusrTable 1 (pageOf 0#32)).present = false := by
    rw [hpage, boot_mm]
    rfl
  have hres : (Machine.sample.boot.mm.sysShmat 1 0#32 0#32).1 = 0 := by
    rw [Mm.sysShmat_of_firstFree hacc (Mm.isFirstFree_self (by decide) habs), hpage]
    rfl
  rw [Kernel.currentPtSlot_eq (follows_boot Machine.sample).threads]
  refine ⟨⟨[], Run.nil _⟩, hres, fun h => ?_⟩
  obtain ⟨page, he, hge, -⟩ := h.success 0 le_rfl hres
  have hzero : page * pageSize = 0 := Int.natCast_eq_zero.mp he.symm
  replace hge : 284 ≤ page := hge
  simp only [pageSize] at hzero
  omega

/-- **Detaching an unmarked segment undoes the attachment only where there
was none**: `sys_shmat` finds no free page. -/
theorem detach_undoes_iff (M : Machine) (k : Kernel) (h : Reachable M k) (id addr : DWord)
    (hacc : Mm.ShmatAccepts id addr) (hlt : pageOf addr < totalPages)
    (hmark : (k.mm.shmMem id.toNat).aBorrar = false) :
    k.mm.DetachUndoes k.sched.cr3 k.currentPtSlot id addr
      ↔ ∀ p, pageOf addr ≤ p → p < totalPages → (k.currentPt p).present = true := by
  obtain ⟨a, -, hm⟩ := h.mapped
  exact Mm.detachUndoes_iff hm hacc hlt hmark

/-- A page of the shared region has no entry at boot. -/
theorem boot_zero (M : Machine) {p : ℕ} (hp : pagLogInitShared ≤ p) :
    M.boot.mm.pagusrTable 1 p = PageTableEntry.zero := by
  rw [boot_mm]
  dsimp only
  rw [if_pos rfl, bootTable, if_neg (fun hc => Nat.not_le.mpr hc.2 hp),
    Mapped.initTablePages_of_ge M (le_trans (by decide) hp)]

theorem boot_absent (M : Machine) {p : ℕ} (hp : pagLogInitShared ≤ p) :
    (M.boot.mm.pagusrTable 1 p).present = false := by
  rw [boot_zero M hp]
  rfl

theorem boot_firstFree (M : Machine) {addr : DWord} (hge : pagLogInitShared ≤ pageOf addr)
    (hlt : pageOf addr < totalPages) :
    IsFirstFree (M.boot.mm.pagusrTable 1) (pageOf addr) (pageOf addr) :=
  Mm.isFirstFree_self hlt (boot_absent M hge)

/-- The first process attaches a segment at a page of the shared region. -/
theorem boot_sysShmat (M : Machine) {id addr : DWord} {i : ℕ} (hacc : Mm.ShmatAccepts id addr)
    (hi : id.toNat = i) (hge : pagLogInitShared ≤ pageOf addr) (hlt : pageOf addr < totalPages) :
    M.boot.mm.sysShmat 1 id addr
      = (((pageOf addr * pageSize : ℕ) : ℤ), M.boot.mm.attach 1 i (pageOf addr)) := by
  subst hi
  exact Mm.sysShmat_of_firstFree hacc (boot_firstFree M hge hlt)

/-- **An attachment**, as a step of the system. -/
theorem Kernel.Follows.exists_attach {k : Kernel} {a : Schedule} (hf : k.Follows a)
    (hbusy : a.current ≠ a.idle) {s : Slot} (hs : a.current = s) {id addr : DWord} {i page : ℕ}
    (hacc : Mm.ShmatAccepts id addr) (hi : id.toNat = i)
    (hfirst : IsFirstFree (k.mm.pagusrTable s) (pageOf addr) page)
    (hfit : (k.mm.attach s i page).CountsFit) :
    ∃ k', k.step (.shmat id addr) = some k' ∧ k'.Follows a ∧ k'.mm = k.mm.attach s i page := by
  subst hi hs
  have hres : (k.mm.sysShmat a.current id addr).2 = k.mm.attach a.current id.toNat page :=
    congrArg Prod.snd (Mm.sysShmat_of_firstFree hacc hfirst)
  refine Kernel.exists_shmat hf hbusy hres ?_ hfit
  rw [Mm.attach_stuck]
  exact hf.mm_down

theorem boot_unmarked (M : Machine) (i : ℕ) : (M.boot.mm.shmMem i).aBorrar = false := by
  rw [boot_mm]
  dsimp only
  split_ifs <;> rfl

/-- The first process attaches segment 0 at the last page of the table, and
another attachment there is refused. -/
theorem detach_undoes_iff_full :
    ∃ k, Run Kernel.step (fun _ _ => True) Machine.sample.boot [.shmat 0#32 0x3ff000#32] k
      ∧ k.mm.DetachUndoes k.sched.cr3 k.currentPtSlot 0#32 0x3ff000#32 := by
  have hacc : Mm.ShmatAccepts 0#32 0x3ff000#32 := ⟨by decide, by decide, by decide⟩
  have hge : pagLogInitShared ≤ pageOf 0x3ff000#32 := by decide
  have hlt : pageOf 0x3ff000#32 < totalPages := by decide
  obtain ⟨k, hst, hf, hmm⟩ := (follows_boot Machine.sample).exists_attach (by decide)
    (show _ = 1 from rfl) hacc
    (show _ = 0 from rfl) (boot_firstFree Machine.sample hge hlt)
    (((countsWithin_boot Machine.sample).attach 1 0 _).fit (by decide))
  have hrun : Run Kernel.step (fun _ _ => True) Machine.sample.boot [.shmat 0#32 0x3ff000#32] k :=
    Run.single trivial hst
  have hmark : (k.mm.shmMem 0).aBorrar = false := by
    rw [hmm]
    exact Mm.attach_unmarked (boot_unmarked Machine.sample 0)
  refine ⟨k, hrun, (detach_undoes_iff Machine.sample k ⟨_, hrun⟩ 0#32 0x3ff000#32 hacc hlt
    hmark).mpr (fun p h₁ h₂ => ?_)⟩
  -- the page asked for is the only one left
  have hlast : totalPages - 1 = pageOf 0x3ff000#32 := by decide
  have hp : p = pageOf 0x3ff000#32 := Nat.le_antisymm (hlast ▸ Nat.le_sub_one_of_lt h₂) h₁
  rw [Kernel.currentPt_eq hf.threads, hmm, hp]
  exact Mm.attach_present _ _ _ _

/-- **Segment 0 attached and detached** at the first page of the shared
region: the page is still mapped, and a second detach is accepted too. -/
theorem not_detach_undoes_first :
    Reachable Machine.sample Machine.sample.boot
      ∧ (let m₁ := (Machine.sample.boot.mm.sysShmat 1 0#32 0x11c000#32).2
        let m₂ := (m₁.sysShmdt 1 1 0x11c000#32).2
        (Machine.sample.boot.mm.sysShmat 1 0#32 0x11c000#32).1 = 0x11c000
          ∧ (m₁.sysShmdt 1 1 0x11c000#32).1 = 0
          ∧ (m₂.pagusrTable 1 (pageOf 0x11c000#32)).present = true
          ∧ (m₂.sysShmdt 1 1 0x11c000#32).1 = 0)
      ∧ ¬ Machine.sample.boot.mm.DetachUndoes 1 1 0#32 0x11c000#32 := by
  have hge : pagLogInitShared ≤ pageOf 0x11c000#32 := by decide
  have hlt : pageOf 0x11c000#32 < totalPages := by decide
  have hacc : Mm.ShmatAccepts 0#32 0x11c000#32 := ⟨by decide, by decide, by decide⟩
  have hres := boot_sysShmat Machine.sample hacc (show _ = 0 from rfl) hge hlt
  set m := Machine.sample.boot.mm.attach 1 0 (pageOf 0x11c000#32) with hm
  have hpres : (m.pagusrTable 1 (pageOf 0x11c000#32)).present = true := Mm.attach_present _ _ _ _
  have hseg : m.segmentAt 1 (pageOf 0x11c000#32) = some 0 :=
    Mm.segmentAt_attach (Mapped.boot Machine.sample) (by decide) hlt
  have hmark : (m.shmMem 0).aBorrar = false := Mm.attach_unmarked (boot_unmarked Machine.sample 0)
  have hdet : (m.sysShmdt 1 1 0x11c000#32).2 = m.addRef 0 (-1) :=
    Mm.sysShmdt_unmarked (by rw [shmdtPage_eq]; exact hseg) hmark
  -- the page is still there, and so is the segment behind it
  have hseg₂ : (m.addRef 0 (-1)).segmentAt 1 (pageOf 0x11c000#32) = some 0 :=
    (Mm.segmentAt_addRef m 1 0 (-1) _).trans hseg
  have haddr : pageOf 0x11c000#32 * pageSize = 0x11c000 := by decide
  refine ⟨⟨[], Run.nil _⟩, ?_, fun h => ?_⟩
  · rw [hres]
    dsimp only
    rw [hdet]
    exact ⟨congrArg Nat.cast haddr, Mm.sysShmdt_fst hseg, hpres, Mm.sysShmdt_fst hseg₂⟩
  · obtain ⟨-, htab, -⟩ := h 0x11c000#32 (by rw [hres, haddr]; rfl)
    rw [hres] at htab
    dsimp only at htab
    rw [hdet] at htab
    have habs := boot_absent Machine.sample hge
    rw [← htab] at habs
    exact absurd (hpres.symm.trans habs) (by decide)

end ZeOS.Practica
