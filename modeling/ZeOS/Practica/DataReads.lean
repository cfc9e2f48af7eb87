import ZeOS.Practica.DataPages

/-!
# What the processes read in their data pages

A user-mode load of a data address reads a byte of the frame behind the
page. A page fault changes no byte that any process reads, a store that
does not fault changes one, for its own process only, and a store that
faults is served as long as a copy finds a frame.
-/

namespace ZeOS.Practica

/-- An address in the data pages. -/
def DataAddr (addr : ℕ) : Prop :=
  pagLogInitData * pageSize ≤ addr ∧ addr < pagLogInitShared * pageSize

instance : DecidablePred DataAddr := fun _ => inferInstanceAs (Decidable (_ ∧ _))

/-- What a frame holds. -/
def Mm.contents (m : Mm) (f : ℕ) : Fin pageSize → Byte := fun o => m.ram (f, o)

/-- The offset of an address in its page. -/
def offset (addr : ℕ) : Fin pageSize := ⟨addr % pageSize, Nat.mod_lt _ (by decide)⟩

/-- What a process reads at an address. -/
def Kernel.reads (k : Kernel) (s : Slot) (addr : ℕ) : Option Byte :=
  k.mm.userLoad (k.sched.getPt s) addr

theorem Kernel.reads_eq {k : Kernel} {a : Schedule} (h : k.sched.Threads a) {s : Slot}
    (hs : a.Live s) (addr : ℕ) : k.reads s addr = k.mm.userLoad s addr := by
  rw [Kernel.reads, h.dir_eq s ((a.live_iff s).mp hs)]

variable {M : Machine} {a : Schedule} {m m₁ : Mm} {s q : Slot} {addr : ℕ} {i : DataPage}

/-- The data page of a data address. -/
theorem DataAddr.exists_page (h : DataAddr addr) :
    ∃ i, dataPage i = addr / pageSize ∧ addr % 2 ^ 32 / pageSize = dataPage i := by
  obtain ⟨h₁, h₂⟩ := h
  replace h₁ : 264 * 4096 ≤ addr := h₁
  replace h₂ : addr < 284 * 4096 := h₂
  obtain ⟨i, hi⟩ := exists_dataPage (p := addr / pageSize)
    (by show 264 ≤ addr / 4096; omega) (by show addr / 4096 < 284; omega)
  refine ⟨i, hi, ?_⟩
  rw [hi, Nat.mod_eq_of_lt (by omega)]

/-- Data addresses in one page with one offset are equal. -/
theorem addr_eq {addr addr' : ℕ} (hp : addr / pageSize = addr' / pageSize)
    (ho : offset addr = offset addr') : addr = addr' := by
  have ho' : addr % pageSize = addr' % pageSize := congrArg Fin.val ho
  rw [← Nat.div_add_mod addr pageSize, ← Nat.div_add_mod addr' pageSize, hp, ho']

/-- The byte a data address is translated to. -/
theorem translate_data (hm : Mapped M a m) (hs : a.User s)
    (hi : addr % 2 ^ 32 / pageSize = dataPage i) :
    m.translate s addr = some ((dataTable a m).frame s i, addr % pageSize) := by
  obtain ⟨h₁, h₂⟩ := dataPage_bounds i
  have hpres := ((hm.user_table s hs).data _ h₁ h₂).1
  rw [Mm.translate]
  simp only [hi, dataPage_lt i, hpres, and_self, if_true]
  rfl

/-- **A load from a data page.** -/
theorem userLoad_data (hm : Mapped M a m) (hs : a.User s)
    (hi : addr % 2 ^ 32 / pageSize = dataPage i) :
    m.userLoad s addr = some ((dataTable a m).view m.contents s i (offset addr)) := by
  obtain ⟨h₁, h₂⟩ := dataPage_bounds i
  have huser := ((hm.user_table s hs).data _ h₁ h₂).2.1
  rw [Mm.userLoad, translate_data hm hs hi, hi, if_pos huser]
  rfl

/-- The idle task reads no data page. -/
theorem userLoad_idle (hm : Mapped M a m) (hi : addr % 2 ^ 32 / pageSize = dataPage i) :
    m.userLoad a.idle addr = none := by
  have hge : numPagKernel ≤ dataPage i := le_trans (by decide) (dataPage_bounds i).1
  have huser : ¬ (PageTableEntry.zero).user = true := by decide
  rw [Mm.userLoad, hi, hm.idle_table, Mapped.initTablePages_of_ge M hge, if_neg huser]

/-- What a store to a data page asks. -/
theorem userCanStore_data (hm : Mapped M a m) (hs : a.User s)
    (hi : addr % 2 ^ 32 / pageSize = dataPage i) :
    m.userCanStore s addr = (dataTable a m).writable s i := by
  obtain ⟨h₁, h₂⟩ := dataPage_bounds i
  have huser := ((hm.user_table s hs).data _ h₁ h₂).2.1
  rw [Mm.userCanStore, translate_data hm hs hi, hi, huser, dataTable_writable]
  rfl

/-- Two memories in which the processes read the same bytes of their data
pages. -/
theorem userLoad_congr (hm : Mapped M a m) (hm₁ : Mapped M a m₁)
    (hview : ∀ q, a.User q → ∀ i,
      (dataTable a m₁).view m₁.contents q i = (dataTable a m).view m.contents q i)
    (hq : a.Live q) (h : DataAddr addr) : m₁.userLoad q addr = m.userLoad q addr := by
  obtain ⟨i, -, hi⟩ := h.exists_page
  rcases (a.live_iff_user q).mp hq with hu | rfl
  · rw [userLoad_data hm hu hi, userLoad_data hm₁ hu hi, hview q hu]
  · rw [userLoad_idle hm hi, userLoad_idle hm₁ hi]

/-! ## Page faults -/

/-- **A page fault leaves everything the processes read as it was**, and the
pages in order, if a copy finds a frame. -/
theorem reads_faulted (hm : Mapped M a m) (ho : InOrder (dataTable a m)) (hs : a.User s) {p : ℕ}
    (hf : m.Faulted s p m₁)
    (hfree : 2 ≤ m.physMem (getFrame (m.pagusrTable s) p) → freeFrames m.physMem ≠ []) :
    Mapped M a m₁ ∧ InOrder (dataTable a m₁)
      ∧ ∀ q, a.Live q → ∀ addr, DataAddr addr → m₁.userLoad q addr = m.userLoad q addr := by
  have hm₁ := hm.faulted hs hf
  rcases table_faulted hm hs hf with ⟨hc, hram⟩ | ⟨i, hi, hc, -, hram⟩
  · refine ⟨hm₁, ho.calm hc, fun q hq addr h => userLoad_congr hm hm₁ (fun q hq i => ?_) hq h⟩
    rw [SharedPages.view, hc.frame q (mem_owners.mpr hq)]
    funext o
    rw [Mm.contents, hram]
    rfl
  · have hshared : 2 ≤ m.physMem (getFrame (m.pagusrTable s) p) := by
      rw [← hi]
      exact hc.shared
    obtain ⟨g, -, -, hsp⟩ := ho.splits hc (hfree hshared)
    rw [hsp.frame_self] at hram
    refine ⟨hm₁, ho.copied hc (hfree hshared), fun q hq addr h =>
      userLoad_congr hm hm₁ (fun q hq j => ?_) hq h⟩
    refine hsp.view_eq ?_ (fun f hf => ?_) (mem_owners.mpr hq) j
    · funext o
      rw [Mm.contents, hram]
      exact if_pos ⟨rfl, o.isLt⟩
    · funext o
      rw [Mm.contents, hram]
      exact if_neg (fun hc => hf hc.1)

/-! ## Stores -/

/-- **A store that does not fault** changes what its own process reads, at
its own address. -/
theorem reads_store (hm : Mapped M a m) (ho : InOrder (dataTable a m)) (hs : a.User s)
    (hd : DataAddr addr) (hcan : m.userCanStore s addr = true) {loc : Location} {b : Byte}
    (hloc : m.translate s addr = some loc) (hq : a.Live q) {addr' : ℕ} (hd' : DataAddr addr') :
    ({ m with ram := Function.update m.ram loc b } : Mm).userLoad q addr'
      = if q = s ∧ addr' = addr then some b else m.userLoad q addr' := by
  obtain ⟨i, hip, hi⟩ := hd.exists_page
  obtain ⟨j, hjp, hj⟩ := hd'.exists_page
  have hm₁ : Mapped M a { m with ram := Function.update m.ram loc b } :=
    hm.of_eq rfl rfl (fun _ => rfl)
  rw [translate_data hm hs hi, Option.some_inj] at hloc
  rw [userCanStore_data hm hs hi] at hcan
  rcases (a.live_iff_user q).mp hq with hu | rfl
  · rw [userLoad_data hm hu hj, userLoad_data hm₁ hu hj]
    by_cases hqi : q = s ∧ j = i
    · -- the page stored to
      obtain ⟨rfl, rfl⟩ := hqi
      show some (Function.update m.ram loc b ((dataTable a m).frame q j, addr' % pageSize)) = _
      by_cases he : addr' = addr
      · rw [if_pos ⟨rfl, he⟩, he, hloc, Function.update_self]
      · rw [if_neg (fun hc => he hc.2), Function.update_of_ne]
        · rfl
        · rw [← hloc]
          intro hc
          refine he (addr_eq (hjp.symm.trans hip) (Fin.ext ?_))
          exact (Prod.mk.inj hc).2
    · have hne : ¬ (q = s ∧ addr' = addr) := by
        rintro ⟨rfl, rfl⟩
        exact hqi ⟨rfl, dataPage_injective (hjp.trans hip.symm)⟩
      rw [if_neg hne]
      refine congrArg some (congrFun (ho.sound.view_write (mem_owners.mpr hs) hcan
        (fun f hf => ?_) (mem_owners.mpr hu) hqi) _)
      funext o
      refine Function.update_of_ne (fun hc => hf ?_) _ _
      rw [← hloc] at hc
      exact (Prod.mk.inj hc).1
  · have hne : ¬ (a.idle = s ∧ addr' = addr) := fun hc => hs.2 hc.1.symm
    rw [if_neg hne, userLoad_idle hm hj, userLoad_idle hm₁ hj]

/-! ## A fault is served -/

/-- **The fault handler returns** on a data page, and the page may then be
written to. -/
theorem exists_faulted (hm : Mapped M a m) (ho : InOrder (dataTable a m)) (hs : a.User s)
    {cr2 : DWord} (hi : cr2.toNat % 2 ^ 32 / pageSize = dataPage i) (hdown : m.stuck = false) :
    ∃ m₁, m.pagefaultRoutine s s cr2 = some m₁ ∧ m₁.stuck = false
      ∧ m₁.userCanStore s cr2.toNat = true := by
  have hp : pageOf cr2 = dataPage i := by
    rw [pageOf, BitVec.toNat_ushiftRight, Nat.shiftRight_eq_div_pow, ← hi,
      Nat.mod_eq_of_lt cr2.isLt]
  have hmem : s ∈ (dataTable a m).owners := mem_owners.mpr hs
  have hlt : getFrame (m.pagusrTable s) (dataPage i) < totalPages := ho.lt s hmem i
  have hpos : 0 < m.physMem (getFrame (m.pagusrTable s) (dataPage i)) := ho.sound.count_pos hmem i
  -- neither mark is raised
  have hreq : ∀ (p : Prop) [Decidable p], p → m.require p = m := by
    intro p _ hp
    exact Mm.ext rfl rfl rfl rfl (by rw [Mm.require, decide_eq_true hp]; simp)
  have hroutine : m.pagefaultRoutine s s cr2
      = if m.physMem (getFrame (m.pagusrTable s) (dataPage i)) = 1 then
          some (m.setTable s (setRw (m.pagusrTable s) (dataPage i) true))
        else some (m.copyOnWrite s s (dataPage i)) := by
    unfold Mm.pagefaultRoutine
    dsimp only
    rw [hp, hreq _ (dataPage_lt i), hreq _ hlt, if_neg (Nat.pos_iff_ne_zero.mp hpos)]
  have hfault : ∀ m₁, m.pagefaultRoutine s s cr2 = some m₁ → m₁.stuck = false →
      Mapped M a m₁ := by
    intro m₁ h hst
    exact hm.faulted hs (Mm.faulted_of_pagefaultRoutine h hst)
  by_cases hone : m.physMem (getFrame (m.pagusrTable s) (dataPage i)) = 1
  · rw [if_pos hone] at hroutine
    refine ⟨_, hroutine, hdown, ?_⟩
    rw [userCanStore_data (hfault _ hroutine hdown) hs hi, dataTable_writable, Mm.setTable_apply,
      if_pos rfl, setRw_apply, if_pos rfl]
  · rw [if_neg hone] at hroutine
    obtain ⟨h₁, h₂⟩ := dataPage_bounds i
    have hne : dataPage i ≠ paginaAUsar := ne_paginaAUsar h₂
    have heq := Mm.copyOnWrite_eq (dataPage_lt i) hne ((hm.user_table s hs).data _ h₁ h₂).1
    have hst : (m.copyOnWrite s s (dataPage i)).stuck = false := by
      rw [heq]
      exact hdown
    refine ⟨_, hroutine, hst, ?_⟩
    rw [userCanStore_data (hfault _ hroutine hst) hs hi, dataTable_writable, heq]
    dsimp only
    rw [Mm.setTable_apply, if_pos rfl, privateTable, if_pos rfl]
    rfl

end ZeOS.Practica
