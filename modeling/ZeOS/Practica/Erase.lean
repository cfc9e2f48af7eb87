import ZeOS.Practica.Attach
import ZeOS.Practica.Copy

/-!
# How much of a removed segment is erased

When the last reference of a segment marked for removal is detached,
`sys_shmdt` clears the page it was attached at. The loop steps a pointer to
words of eight bytes from the start of the page, and its bound is the address
of the page plus `PAGE_SIZE / sizeof(unsigned long long)`: the number of
words of a page, added as a number of bytes. It stops after 64 words, and the
next process to attach the segment reads what stood behind them.
-/

namespace ZeOS.Practica

namespace Mm

variable {m m' : Mm} {s : Slot} {addr : DWord} {i : ℕ}

/-- **A segment is erased**: its frame is all zeros, nothing else has
changed, and whoever attaches it next reads zeros. -/
structure Erases (m m' : Mm) (i : ℕ) : Prop where
  zero : ∀ j < pageSize, m'.ram ((m.shmMem i).shmMemFrameAddr, j) = 0
  other : ∀ loc : Location, loc.1 ≠ (m.shmMem i).shmMemFrameAddr → m'.ram loc = m.ram loc
  next : ∀ (t : Slot) (id addr : DWord) (a : ℕ), id.toNat = i →
    (m'.sysShmat t id addr).1 = (a : ℤ) → a < totalPages * pageSize →
    ∀ j < pageSize, (m'.sysShmat t id addr).2.userLoad t (a + j) = some 0

/-- A round of the loop. -/
theorem clearWord_eq (m : Mm) (s : Slot) (j : ℕ) :
    clearWord s m j = storeRun (kernelStore s) j (fun _ => 0) m 8 := rfl

/-- The loop is one run of stores. -/
theorem foldl_clearWord (s : Slot) (page n : ℕ) :
    (List.range' page n 8).foldl (clearWord s) m
      = storeRun (kernelStore s) page (fun _ => 0) m (8 * n) := by
  induction n with
  | zero => rfl
  | succ n ih =>
    rw [List.range'_concat, List.foldl_append, ih, List.foldl_cons, List.foldl_nil, clearWord_eq,
      Nat.mul_succ, storeRun_add]

/-- The start of the page of an address. -/
theorem page_start (addr : DWord) :
    (addr &&& 0xfffff000#32).toNat = pageOf addr * pageSize := by
  have hpage : (addr &&& 0xfffff000#32).toNat / pageSize = pageOf addr := shmdtPage_eq addr
  have halign : (addr &&& 0xfffff000#32).toNat % pageSize = 0 := by
    rw [BitVec.toNat_and, show pageSize = 2 ^ 12 from rfl, Nat.and_mod_two_pow,
      show (0xfffff000#32).toNat % 2 ^ 12 = 0 by decide, Nat.and_zero]
  rw [← hpage]
  exact (Nat.div_mul_cancel (Nat.dvd_of_mod_eq_zero halign)).symm

/-- **The last reference of a segment to be removed**: the count and the mark
are zero, the page is unmapped, and an eighth of it has been cleared. -/
theorem sysShmdt_last (hseg : m.segmentAt s (pageOf addr) = some i)
    (hmark : (m.shmMem i).aBorrar = true) (hlast : (m.shmMem i).referencias = 1)
    (hframe : numPagKernel ≤ getFrame (m.pagusrTable s) (pageOf addr)) :
    (m.sysShmdt s s addr).2 =
      { m.setTable s (delSsPag (m.pagusrTable s) (pageOf addr)) with
        shmMem := Function.update m.shmMem i
          { m.shmMem i with referencias := 0, aBorrar := false }
        ram := fun loc =>
          if loc.1 = getFrame (m.pagusrTable s) (pageOf addr) ∧ loc.2 < pageSize / 8 then 0
          else m.ram loc } := by
  obtain ⟨hlt, hpres, -, -⟩ := segmentAt_eq_some hseg
  have hearly : ¬ ((m.shmMem i).aBorrar = false ∨ (m.shmMem i).referencias ≠ 1) := by
    rw [hmark, hlast]
    decide
  have hstores : storeRun (kernelStore s) (pageOf addr * pageSize) (fun _ => 0)
      (m.addRef i (-1)) (8 * (pageSize / 8 / 8))
      = { m.addRef i (-1) with
          ram := writeRun m.ram (fun j => (getFrame (m.pagusrTable s) (pageOf addr), j))
            (fun _ => 0) (8 * (pageSize / 8 / 8)) } := by
    refine storeRun_kernelStore (fun j hj => ?_) (fun _ _ => hframe)
    exact translate_page hlt (hj.trans (by decide)) hpres
  rw [← shmdtPage_eq] at hseg
  rw [(sysShmdt_some hseg).2, if_neg hearly, page_start, foldl_clearWord, hstores, writeRun_frame,
    shmdtPage_eq]
  refine Mm.ext rfl rfl ?_ rfl rfl
  have hself : (m.addRef i (-1)).shmMem i = { m.shmMem i with referencias := 0 } := by
    rw [addRef_self, hlast]
    rfl
  show Function.update (Function.update m.shmMem i _) i
    { (m.addRef i (-1)).shmMem i with aBorrar := false } = _
  rw [Function.update_idem, hself]

/-! ## The next process -/

/-- An address that `sys_shmat` returns is that of the page it has mapped. -/
theorem exists_attach_of_sysShmat {t : Slot} {id : DWord} {b : ℕ}
    (hret : (m.sysShmat t id addr).1 = (b : ℤ)) (hb : b < totalPages * pageSize) :
    ∃ page < totalPages, b = page * pageSize
      ∧ (m.sysShmat t id addr).2 = m.attach t id.toNat page := by
  have hpos : (0 : ℤ) ≤ b := Int.natCast_nonneg b
  have hacc : ShmatAccepts id addr := by
    by_contra hnot
    have hneg := (sysShmat_of_not_accepts (m := m) (s := t) hnot).1
    omega
  by_cases hlt : pageOf addr < totalPages
  · cases hfree : findFreePage (m.pagusrTable t) (pageOf addr) with
    | none =>
      rw [sysShmat_of_full hacc hlt (findFreePage_eq_none_iff.mp hfree)] at hret
      replace hret : -eINVAL = (b : ℤ) := hret
      have hneg : -eINVAL < 0 := by decide
      omega
    | some page =>
      have hfirst := findFreePage_eq_some_iff.mp hfree
      rw [sysShmat_of_firstFree hacc hfirst] at hret ⊢
      exact ⟨page, hfirst.lt, (Int.natCast_inj.mp hret).symm, rfl⟩
  · -- past the table no address below its end is returned
    exfalso
    have hge : totalPages ≤ (addr.sshiftRight 12).toNat :=
      Nat.not_lt.mp (fun hc => hlt ((sshiftRight_lt_iff addr).mp hc))
    obtain ⟨halign, h₁, h₂⟩ := hacc
    unfold sysShmat at hret
    rw [if_neg (not_not.mpr halign), if_neg (by omega)] at hret
    dsimp only at hret
    split_ifs at hret with hpres
    · rw [findFreePage, Nat.sub_eq_zero_of_le hge] at hret
      replace hret : -eINVAL = (b : ℤ) := hret
      have hneg : -eINVAL < 0 := by decide
      omega
    · replace hret := Int.natCast_inj.mp hret
      exact absurd hb (Nat.not_lt.mpr (hret ▸ Nat.mul_le_mul_right pageSize hge))

/-- What is read through a page just attached. -/
theorem userLoad_attach (m : Mm) (t : Slot) {page j : ℕ} (hlt : page < totalPages)
    (hf : (m.shmMem i).shmMemFrameAddr < totalPages) (hj : j < pageSize) :
    (m.attach t i page).userLoad t (page * pageSize + j)
      = some (m.ram ((m.shmMem i).shmMemFrameAddr, j)) := by
  have hatt : m.AttachedAt t i page (m.attach t i page) := attachedAt_attach hf
  have hpage : (page * pageSize + j) % 2 ^ 32 / pageSize = page := by
    simp only [totalPages, pageSize] at *
    omega
  have huser : ((m.attach t i page).pagusrTable t page).user = true := by
    rw [attach_entry]
    rfl
  rw [userLoad, hpage, if_pos huser, translate_page hlt hj hatt.present, hatt.frame]
  rfl

/-- A frame of which the first bytes have been cleared. -/
theorem cleared_zero_iff {ram ram' : Location → Byte} {f n : ℕ}
    (h : ram' = fun loc => if loc.1 = f ∧ loc.2 < n then 0 else ram loc) :
    (∀ j < pageSize, ram' (f, j) = 0) ↔ ∀ j, n ≤ j → j < pageSize → ram (f, j) = 0 := by
  rw [h]
  constructor
  · intro hall j h₁ h₂
    have hz := hall j h₂
    dsimp only at hz
    rwa [if_neg (fun hc => Nat.not_lt.mpr h₁ hc.2)] at hz
  · intro htail j hj
    dsimp only
    split_ifs with hc
    · rfl
    · exact htail j (Nat.not_lt.mp (fun hlt => hc ⟨rfl, hlt⟩)) hj

/-- **A segment is erased if and only if seven eighths of it were zero
already.** -/
theorem erases_iff {M : Machine} {a : Schedule} (h : Mapped M a m)
    (hseg : m.segmentAt s (pageOf addr) = some i) (hmark : (m.shmMem i).aBorrar = true)
    (hlast : (m.shmMem i).referencias = 1) :
    m.Erases (m.sysShmdt s s addr).2 i
      ↔ ∀ j, pageSize / 8 ≤ j → j < pageSize → m.ram ((m.shmMem i).shmMemFrameAddr, j) = 0 := by
  obtain ⟨-, -, hi, hframe⟩ := segmentAt_eq_some hseg
  have hshm : IsShm (m.shmMem i).shmMemFrameAddr := by
    rw [h.shm_addr i hi]
    exact isShm_shmFrame hi
  have hkernel : numPagKernel ≤ (m.shmMem i).shmMemFrameAddr := le_trans (by decide) hshm.bounds.1
  have hres := sysShmdt_last hseg hmark hlast (hframe ▸ hkernel)
  rw [← hframe] at hres
  generalize (m.sysShmdt s s addr).2 = m' at hres
  rw [← cleared_zero_iff (congrArg Mm.ram hres)]
  constructor
  · exact fun hall => hall.zero
  · intro hzero
    have haddr : (m'.shmMem i).shmMemFrameAddr = (m.shmMem i).shmMemFrameAddr := by
      rw [hres]
      show (Function.update m.shmMem i _ i).shmMemFrameAddr = _
      rw [Function.update_self]
    refine ⟨hzero, fun loc hloc => ?_, fun t id addr b hid hret hb j hj => ?_⟩
    · rw [hres]
      exact if_neg (fun hc => hloc hc.1)
    · obtain ⟨page, hlt, rfl, he⟩ := exists_attach_of_sysShmat hret hb
      rw [he, hid, userLoad_attach m' t hlt (haddr ▸ hshm.fixed.lt) hj, haddr, hzero j hj]

end Mm

/-- **`sys_shmdt` erases a removed segment if and only if the bytes behind
the first 512 are zero before the call.** -/
theorem shmdt_erases_iff (M : Machine) (k : Kernel) (h : Reachable M k) (ram : Location → Byte)
    (addr : DWord) (i : ℕ) (hlt : pageOf addr < totalPages)
    (hpres : (k.currentPt (pageOf addr)).present = true) (hi : i < shmLength)
    (hframe : getFrame k.currentPt (pageOf addr) = (k.mm.shmMem i).shmMemFrameAddr)
    (hmark : (k.mm.shmMem i).aBorrar = true) (hlast : (k.mm.shmMem i).referencias = 1) :
    Mm.Erases { k.mm with ram := ram }
        (({ k.mm with ram := ram } : Mm).sysShmdt k.sched.cr3 k.currentPtSlot addr).2 i
      ↔ ∀ j, pageSize / 8 ≤ j → j < pageSize → ram ((k.mm.shmMem i).shmMemFrameAddr, j) = 0 := by
  obtain ⟨a, hf, hm⟩ := h.mapped
  obtain ⟨hslot, hpt⟩ := hf.currentPt rfl
  rw [hpt] at hpres hframe
  have hm' : Mapped M a { k.mm with ram := ram } := hm.of_eq rfl rfl (fun _ => rfl)
  have hseg : ({ k.mm with ram := ram } : Mm).segmentAt a.current (pageOf addr) = some i := by
    exact Mm.segmentAt_of_frame hm.shm_addr hi hlt hpres hframe
  rw [hslot, hf.threads.cr3_eq]
  exact Mm.erases_iff hm' hseg hmark hlast

/-! ## One byte behind the first 512 -/

/-- **A removal mark**, as a step of the system. -/
theorem Kernel.Follows.exists_mark {k : Kernel} {a : Schedule} (hf : k.Follows a)
    (hbusy : a.current ≠ a.idle) {id : DWord} {i : ℕ} (hid : id.toNat = i) (hi : i < shmLength) :
    ∃ k', k.step (.shmrm id) = some k' ∧ k'.Follows a ∧ k'.mm = { k.mm with
      shmMem := Function.update k.mm.shmMem i { k.mm.shmMem i with aBorrar := true } } := by
  subst hid
  have hint : ¬ (10 < id.toInt ∨ id.toInt < 0) := by
    simp only [shmLength] at hi
    rw [BitVec.toInt_eq_toNat_of_lt (by omega)]
    omega
  have hmm : (k.entered.mm.sysShmrm id).2 = { k.mm with
      shmMem := Function.update k.mm.shmMem id.toNat
        { k.mm.shmMem id.toNat with aBorrar := true } } := by
    rw [Mm.sysShmrm, if_neg hint]
    refine Mm.ext rfl rfl rfl rfl ?_
    show (k.mm.stuck || _) = k.mm.stuck
    rw [decide_eq_true hi]
    exact Bool.or_false _
  obtain ⟨k', hst, hf', hk, -⟩ := Kernel.exists_step (e := .shmrm id) hf hbusy rfl
    (f := fun k => { k with mm := (k.mm.sysShmrm id).2 })
    ⟨hf.entered.threads, by rw [hmm]; exact hf.mm_down, hf.entered.sched_down,
      hf.counts_fit.sysShmrm id⟩
  exact ⟨k', hst, hf', hk.trans hmm⟩

/-- **Segment 0 attached once and marked**, by the first process, at the
first page of the shared region. -/
structure MarkedOnce (M : Machine) (k : Kernel) : Prop where
  run : Run Kernel.step (fun _ _ => True) M.boot [.shmat 0#32 0x11c000#32, .shmrm 0#32] k
  follows : k.Follows bootSchedule
  mapped : Mapped M bootSchedule k.mm
  exact : Exact bootSchedule k.mm
  present : (k.mm.pagusrTable 1 284).present = true
  frame : getFrame (k.mm.pagusrTable 1) 284 = (k.mm.shmMem 0).shmMemFrameAddr
  marked : (k.mm.shmMem 0).aBorrar = true
  last : (k.mm.shmMem 0).referencias = 1
  ram : k.mm.ram = M.ram
  counts : k.mm.CountsWithin 1

theorem exists_markedOnce (M : Machine) :
    ∃ k₁ k, M.boot.step (.shmat 0#32 0x11c000#32) = some k₁
      ∧ k₁.step (.shmrm 0#32) = some k ∧ MarkedOnce M k := by
  have hm := Mapped.boot M
  obtain ⟨k₁, hst₁, hf₁, hmm₁⟩ := exists_first_attach M
  have hid : (0#32).toNat = 0 := by decide
  obtain ⟨k₂, hst₂, hf₂, hmm₂⟩ := hf₁.exists_mark (by decide) hid (by decide)
  have hlt : (M.boot.mm.shmMem 0).shmMemFrameAddr < totalPages := by
    rw [hm.shm_addr 0 (by decide)]
    decide
  have hat : M.boot.mm.AttachedAt 1 0 284 k₁.mm := by
    rw [hmm₁]
    exact Mm.attachedAt_attach hlt
  have habs : (M.boot.mm.pagusrTable 1 284).present = false := boot_absent M (by decide)
  have hex₁ : Exact bootSchedule k₁.mm := by
    rw [hmm₁]
    exact (exact_boot M).attach hm (user_boot.mpr rfl) (by decide) (by decide) habs
  have hm₁ : Mapped M bootSchedule k₁.mm := by
    rw [hmm₁]
    exact hm.attach (user_boot.mpr rfl) (by decide) habs
  have htab : k₂.mm.pagusrTable = k₁.mm.pagusrTable := by rw [hmm₂]
  have hshm : k₂.mm.shmMem 0 = { k₁.mm.shmMem 0 with aBorrar := true } := by
    rw [hmm₂]
    dsimp only
    rw [Function.update_self]
  have haddr : (k₁.mm.shmMem 0).shmMemFrameAddr = (M.boot.mm.shmMem 0).shmMemFrameAddr := by
    rw [hmm₁]
    exact Mm.attach_addr _ 1 0 284 0
  have href : (M.boot.mm.shmMem 0).referencias = 0 := by
    rw [boot_mm]
    rfl
  have hother : ∀ i, (k₂.mm.shmMem i).shmMemFrameAddr = (k₁.mm.shmMem i).shmMemFrameAddr
      ∧ (k₂.mm.shmMem i).referencias = (k₁.mm.shmMem i).referencias := by
    intro i
    rw [hmm₂]
    dsimp only
    rw [Function.update_apply]
    split_ifs with hi
    · rw [hi]
      exact ⟨rfl, rfl⟩
    · exact ⟨rfl, rfl⟩
  have hphys : k₂.mm.physMem = k₁.mm.physMem := by rw [hmm₂]
  refine ⟨k₁, k₂, hst₁, hst₂, (Run.single trivial hst₁).snoc trivial hst₂, hf₂,
    hm₁.of_eq hphys htab (fun i => (hother i).1),
    hex₁.of_eq (fun _ => Iff.rfl) (fun i => (hother i).2) (fun _ _ _ _ => by rw [htab]),
    ?_, ?_, ?_, ?_, ?_, fun i hi => ?_⟩
  · rw [htab]
    exact hat.present
  · rw [htab, hshm]
    exact hat.frame.trans haddr.symm
  · rw [hshm]
  · rw [hshm]
    dsimp only
    rw [hat.references, href]
    rfl
  · rw [hmm₂, hmm₁, boot_mm]
    rfl
  · rw [(hother i).2, hmm₁]
    exact (countsWithin_boot M).attach 1 0 284 i hi

/-- Contents whose pages have their first 512 bytes set, and no others. -/
def bytesBefore : Location → Byte := fun loc => if loc.2 < pageSize / 8 then 1 else 0

/-- A segment with something to erase, as far as the loop goes. -/
theorem shmdt_erases_iff_before :
    ∃ k, Reachable Machine.sample k ∧ Mm.Erases { k.mm with ram := bytesBefore }
      (({ k.mm with ram := bytesBefore } : Mm).sysShmdt k.sched.cr3 k.currentPtSlot
        0x11c000#32).2 0 := by
  obtain ⟨-, k, -, -, h⟩ := exists_markedOnce Machine.sample
  obtain ⟨-, hpt⟩ := h.follows.currentPt (show _ = 1 from rfl)
  have hpage : pageOf 0x11c000#32 = 284 := by decide
  refine ⟨k, ⟨_, h.run⟩, (shmdt_erases_iff Machine.sample k ⟨_, h.run⟩ bytesBefore 0x11c000#32 0
    (by decide) ?_ (by decide) ?_ h.marked h.last).mpr
      (fun _ hj _ => if_neg (Nat.not_lt.mpr hj))⟩
  · rw [hpt, hpage]
    exact h.present
  · rw [hpt, hpage]
    exact h.frame

/-- The contents with a single byte set, the one behind the first 512 of a
frame. -/
def byteBehind (f : ℕ) : Location → Byte := fun loc => if loc = (f, 512) then 1 else 0

/-- **A byte left over**, where the loop stops. -/
theorem not_shmdt_erases :
    ∃ k m m', Reachable Machine.sample k
      ∧ m = ({ k.mm with ram := byteBehind (k.mm.shmMem 0).shmMemFrameAddr } : Mm)
      ∧ (m.shmMem 0).aBorrar = true ∧ (m.shmMem 0).referencias = 1
      ∧ m.sysShmdt k.sched.cr3 k.currentPtSlot 0x11c000#32 = (0, m')
      ∧ (m'.shmMem 0).referencias = 0 ∧ m'.ram ((m.shmMem 0).shmMemFrameAddr, 512) = 1
      ∧ ¬ m.Erases m' 0 := by
  obtain ⟨-, k, -, -, h⟩ := exists_markedOnce Machine.sample
  obtain ⟨hslot, -⟩ := h.follows.currentPt (show _ = 1 from rfl)
  have hpage : pageOf 0x11c000#32 = 284 := by decide
  have hslot' : bootSchedule.current = 1 := rfl
  set m : Mm := { k.mm with ram := byteBehind (k.mm.shmMem 0).shmMemFrameAddr } with hm₀
  have hseg : m.segmentAt 1 (pageOf 0x11c000#32) = some 0 := by
    rw [hpage]
    exact Mm.segmentAt_of_frame h.mapped.shm_addr (by decide) (by decide) h.present h.frame
  have hkernel : numPagKernel ≤ getFrame (m.pagusrTable 1) (pageOf 0x11c000#32) := by
    rw [hpage]
    show numPagKernel ≤ getFrame (k.mm.pagusrTable 1) 284
    rw [h.frame, h.mapped.shm_addr 0 (by decide)]
    decide
  have hret : (m.sysShmdt 1 1 0x11c000#32).1 = 0 := Mm.sysShmdt_fst hseg
  have hres := Mm.sysShmdt_last hseg h.marked h.last hkernel
  -- the loop has stopped before the byte
  have hbyte : (m.sysShmdt 1 1 0x11c000#32).2.ram ((m.shmMem 0).shmMemFrameAddr, 512) = 1 := by
    rw [hres]
    dsimp only
    rw [if_neg (fun hc => absurd hc.2 (by decide))]
    exact if_pos rfl
  refine ⟨k, m, (m.sysShmdt 1 1 0x11c000#32).2, ⟨_, h.run⟩, rfl, h.marked, h.last, ?_, ?_, hbyte,
    fun hall => ?_⟩
  · rw [hslot, h.follows.threads.cr3_eq, hslot']
    exact Prod.ext hret rfl
  · rw [hres]
    dsimp only
    rw [Function.update_self]
  · have hzero := hall.zero 512 (by decide)
    rw [hbyte] at hzero
    exact absurd hzero (by decide)

end ZeOS.Practica
