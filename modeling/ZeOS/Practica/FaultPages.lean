import ZeOS.Practica.Copy
import ZeOS.Practica.ForkPages
import ZeOS.Practica.Interrupt

/-!
# What the fault handler does to the memory

The copying branch of `pagefault_routine` maps a fresh frame at a borrowed
page, copies through it, gives the page back and maps the frame where the
fault was. Of the borrowing nothing is left but the entry of the borrowed
page, rewritten by `set_ss_pag` if there was one and cleared if there was
none; the rest is the fresh frame with the old contents.
-/

namespace ZeOS.Practica

/-- The frame the 20 bits of an entry keep of a number given to
`set_ss_pag`. -/
def frameField (frame : ℤ) : ℕ := (BitVec.ofInt 20 frame).toNat

theorem frameField_natCast {f : ℕ} (hf : f < totalPages) : frameField f = f := by
  rw [frameField, BitVec.ofInt_natCast, BitVec.toNat_ofNat]
  exact Nat.mod_eq_of_lt (hf.trans (by decide))

/-- What an allocation that failed leaves in an entry. -/
theorem frameField_neg_one : frameField (-1) = 0xfffff := by decide

/-- The frame the next allocation puts into an entry: a free one, or
`0xfffff` where there is none. -/
def nextFrame (phys : PhysMem) : ℕ := frameField (allocFrame phys).1

theorem nextFrame_cases (phys : PhysMem) :
    (∃ f fs, freeFrames phys = f :: fs ∧ nextFrame phys = f
      ∧ (allocFrame phys).2 = Function.update phys f 1)
    ∨ freeFrames phys = [] ∧ nextFrame phys = 0xfffff ∧ (allocFrame phys).2 = phys := by
  cases h : freeFrames phys with
  | nil =>
    rw [nextFrame, allocFrame_of_nil h]
    exact Or.inr ⟨rfl, frameField_neg_one, rfl⟩
  | cons f fs =>
    have hmem : f ∈ freeFrames phys := h ▸ List.mem_cons_self
    obtain ⟨-, hf, -⟩ := mem_frameScan.mp (mem_freeFrames.mp hmem).1
    rw [nextFrame, allocFrame_of_cons h]
    exact Or.inl ⟨f, fs, rfl, frameField_natCast hf, rfl⟩

/-- A frame in use more than once is not freed by counting it down. -/
theorem freeFrames_countDown {phys : PhysMem} {f : ℕ} (h : 2 ≤ phys f) :
    freeFrames (Function.update phys f (phys f - 1)) = freeFrames phys := by
  refine List.filter_congr (fun g _ => ?_)
  rw [Function.update_apply, decide_eq_decide]
  split_ifs with hg
  · rw [hg]
    simp only [freeFrameMark]
    omega
  · rfl

theorem numPagKernel_le_nextFrame (phys : PhysMem) : numPagKernel ≤ nextFrame phys := by
  rcases nextFrame_cases phys with ⟨f, fs, h, hn, -⟩ | ⟨-, hn, -⟩
  · have hmem : f ∈ freeFrames phys := h ▸ List.mem_cons_self
    rw [hn]
    exact (mem_frameScan.mp (mem_freeFrames.mp hmem).1).1
  · rw [hn]
    decide

/-- A frame in use is not the next one. -/
theorem ne_nextFrame {phys : PhysMem} {f : ℕ} (hf : phys f ≠ 0) (hlt : f < totalPages) :
    f ≠ nextFrame phys := by
  rcases nextFrame_cases phys with ⟨g, gs, h, hn, -⟩ | ⟨-, hn, -⟩
  · have hmem : g ∈ freeFrames phys := h ▸ List.mem_cons_self
    rw [hn]
    rintro rfl
    exact hf (mem_freeFrames.mp hmem).2
  · rw [hn]
    rintro rfl
    exact absurd hlt (by decide)

/-- The entry `set_ss_pag` writes for a frame number. -/
def PageTableEntry.mapping (frame : ℤ) : PageTableEntry :=
  ⟨true, true, true, BitVec.ofInt 20 frame⟩

/-- The table after the copying branch: the fresh frame where the fault was,
and the borrowed page as the borrowing leaves it. -/
def privateTable (pt : PageTable) (posicion : ℕ) (frame : ℤ) : PageTable := fun p =>
  if p = posicion then PageTableEntry.mapping frame
  else if p = paginaAUsar then
    if (pt paginaAUsar).present then (pt paginaAUsar).opened else PageTableEntry.zero
  else pt p

/-- No other entry is touched. -/
theorem privateTable_of_ne (pt : PageTable) {posicion p : ℕ} (frame : ℤ) (hp : p ≠ posicion)
    (hb : p ≠ paginaAUsar) : privateTable pt posicion frame p = pt p := by
  rw [privateTable, if_neg hp, if_neg hb]

/-- The borrowed page is one of the shared region. -/
theorem ne_paginaAUsar {p : ℕ} (hp : p < pagLogInitShared) : p ≠ paginaAUsar :=
  Nat.ne_of_lt (hp.trans (by decide))

namespace Mm

theorem setTable_setTable (m : Mm) (s : Slot) (pt pt' : PageTable) :
    ((m.setTable s pt).setTable s pt').pagusrTable = (m.setTable s pt').pagusrTable :=
  Function.update_idem _ _ _

@[simp] theorem giveBack_stuck (m : Mm) (s : Slot) (posicion : ℕ) (frame frameaux : ℤ) :
    (m.giveBack s posicion frame frameaux).stuck = m.stuck := by
  unfold giveBack
  dsimp only
  rw [setTable_stuck, setTable_stuck, apply_ite Mm.stuck, setTable_stuck, setTable_stuck,
    ite_self]

@[simp] theorem giveBack_shmMem (m : Mm) (s : Slot) (posicion : ℕ) (frame frameaux : ℤ) :
    (m.giveBack s posicion frame frameaux).shmMem = m.shmMem := by
  unfold giveBack
  dsimp only
  rw [setTable_shmMem, setTable_shmMem, apply_ite Mm.shmMem, setTable_shmMem, setTable_shmMem,
    ite_self]

/-- **What the borrowing leaves in the table**, whatever the copy has done to
the memory: the entry is put back by its frame, if it had one. -/
theorem giveBack_eq {m m₀ : Mm} {s : Slot} {posicion : ℕ} {frame : ℤ}
    (htab : m.pagusrTable s = setSsPag (m₀.pagusrTable s) paginaAUsar frame) :
    m.giveBack s posicion frame (m₀.frameaux s)
      = m.setTable s (privateTable (m₀.pagusrTable s) posicion frame) := by
  have hback : ∀ (pt pt' : PageTable), setSsPag pt paginaAUsar (getFrame pt' paginaAUsar)
      = Function.update pt paginaAUsar (pt' paginaAUsar).opened := by
    intro pt pt'
    funext p
    rw [setSsPag_getFrame, Function.update_apply]
  unfold giveBack frameaux
  refine Mm.ext ?_ ?_ ?_ ?_ ?_
  · split_ifs <;> rfl
  · funext t
    by_cases ht : t = s
    · subst ht
      funext p
      by_cases hb : (m₀.pagusrTable t paginaAUsar).present = true
      · have hnn : ((getFrame (m₀.pagusrTable t) paginaAUsar : ℕ) : ℤ) ≠ -1 := by omega
        simp only [hb, if_true, if_pos hnn, setTable_apply, hback, privateTable, htab,
          setSsPag_apply, delSsPag_apply, Function.update_apply]
        split_ifs <;> rfl
      · simp only [hb, setTable_apply, privateTable, htab, setSsPag_apply, delSsPag_apply,
          Bool.false_eq_true, ne_eq, not_true_eq_false, if_false, if_true]
        split_ifs <;> rfl
    · simp only [setTable_apply, if_neg ht]
      split_ifs <;> simp only [setTable_apply, if_neg ht]
  · split_ifs <;> rfl
  · split_ifs <;> rfl
  · split_ifs <;> rfl

/-- **What the copy through the borrowed page does.** -/
theorem copyThrough_eq {m : Mm} {s : Slot} {posicion : ℕ} {frame : ℤ}
    (hp : posicion < totalPages) (hne : posicion ≠ paginaAUsar)
    (hpres : (m.pagusrTable s posicion).present = true)
    (hframe : numPagKernel ≤ frameField frame) :
    m.copyThrough s s posicion frame =
      { m.setTable s (privateTable (m.pagusrTable s) posicion frame) with
        ram := fun loc =>
          if loc.1 = frameField frame ∧ loc.2 < pageSize then
            m.ram (getFrame (m.pagusrTable s) posicion, loc.2)
          else m.ram loc } := by
  -- the memory the copy runs on
  set m₁ : Mm := m.setTable s (setSsPag (m.pagusrTable s) paginaAUsar frame) with hm₁
  have hentry : m₁.pagusrTable s posicion = m.pagusrTable s posicion := by
    simp only [hm₁, setTable_apply, if_true, setSsPag_apply, if_neg hne]
  have hborrowed : m₁.pagusrTable s paginaAUsar = PageTableEntry.mapping frame := by
    simp only [hm₁, setTable_apply, if_true, setSsPag_apply]
    rfl
  have hpres₁ : (m₁.pagusrTable s posicion).present = true := hentry ▸ hpres
  have hsrc : getFrame (m₁.pagusrTable s) posicion = getFrame (m.pagusrTable s) posicion := by
    rw [getFrame, hentry]
    rfl
  have hdst : getFrame (m₁.pagusrTable s) paginaAUsar = frameField frame := by
    rw [getFrame, hborrowed]
    rfl
  have hreq : m₁.require (m₁.translate s (posicion * pageSize)).isSome = m₁ := by
    simp [require, translate_page_start hp hpres₁]
  have hcopy := copyData_page (m := m₁) (s := s) hp (by decide : paginaAUsar < totalPages) hpres₁
    (by rw [hborrowed]; rfl) (by rw [hdst]; exact hframe)
  rw [hdst, hsrc] at hcopy
  unfold copyThrough
  rw [← hm₁]
  dsimp only
  have hback : m₁.pagusrTable s = setSsPag (m.pagusrTable s) paginaAUsar frame := by
    rw [hm₁, setTable_apply, if_pos rfl]
  rw [hreq, hcopy, giveBack_eq]
  · exact Mm.ext rfl (setTable_setTable _ _ _ _) rfl rfl rfl
  · exact hback

/-- **What the copying branch does.** The page of the fault is mapped and is
not the borrowed one. -/
theorem copyOnWrite_eq {m : Mm} {s : Slot} {posicion : ℕ} (hp : posicion < totalPages)
    (hne : posicion ≠ paginaAUsar) (hpres : (m.pagusrTable s posicion).present = true) :
    m.copyOnWrite s s posicion =
      let shared := getFrame (m.pagusrTable s) posicion
      let phys := Function.update m.physMem shared (m.physMem shared - 1)
      { m.setTable s (privateTable (m.pagusrTable s) posicion (allocFrame phys).1) with
        physMem := (allocFrame phys).2
        ram := fun loc =>
          if loc.1 = nextFrame phys ∧ loc.2 < pageSize then m.ram (shared, loc.2)
          else m.ram loc } := by
  set shared := getFrame (m.pagusrTable s) posicion with hsh
  set phys := Function.update m.physMem shared (m.physMem shared - 1) with hphys
  rw [copyOnWrite, ← hsh]
  exact copyThrough_eq (m := { m with physMem := (allocFrame phys).2 }) hp hne hpres
    (numPagKernel_le_nextFrame phys)

/-- **A copy that finds a frame**: the first free one. -/
theorem copyOnWrite_of_cons {m : Mm} {s : Slot} {posicion g : ℕ} {gs : List ℕ}
    (hp : posicion < pagLogInitShared) (hpres : (m.pagusrTable s posicion).present = true)
    (hcount : 2 ≤ m.physMem (getFrame (m.pagusrTable s) posicion))
    (hfree : freeFrames m.physMem = g :: gs) :
    m.copyOnWrite s s posicion =
      { m.setTable s (privateTable (m.pagusrTable s) posicion g) with
        physMem := Function.update (Function.update m.physMem
          (getFrame (m.pagusrTable s) posicion)
          (m.physMem (getFrame (m.pagusrTable s) posicion) - 1)) g 1
        ram := fun loc =>
          if loc.1 = g ∧ loc.2 < pageSize then
            m.ram (getFrame (m.pagusrTable s) posicion, loc.2)
          else m.ram loc } := by
  have hmem : g ∈ freeFrames m.physMem := hfree ▸ List.mem_cons_self
  have hg : g < totalPages := (mem_frameScan.mp (mem_freeFrames.mp hmem).1).2.1
  have halloc := allocFrame_of_cons ((freeFrames_countDown hcount).trans hfree)
  rw [copyOnWrite_eq (hp.trans (by decide)) (ne_paginaAUsar hp) hpres]
  dsimp only
  rw [nextFrame, halloc]
  dsimp only
  rw [frameField_natCast hg]

/-- **A copy that finds none** maps the number the allocator fails with. -/
theorem copyOnWrite_of_nil {m : Mm} {s : Slot} {posicion : ℕ}
    (hp : posicion < pagLogInitShared) (hpres : (m.pagusrTable s posicion).present = true)
    (hcount : 2 ≤ m.physMem (getFrame (m.pagusrTable s) posicion))
    (hfree : freeFrames m.physMem = []) :
    m.copyOnWrite s s posicion =
      { m.setTable s (privateTable (m.pagusrTable s) posicion (-1)) with
        physMem := Function.update m.physMem (getFrame (m.pagusrTable s) posicion)
          (m.physMem (getFrame (m.pagusrTable s) posicion) - 1)
        ram := fun loc =>
          if loc.1 = 0xfffff ∧ loc.2 < pageSize then
            m.ram (getFrame (m.pagusrTable s) posicion, loc.2)
          else m.ram loc } := by
  have halloc := allocFrame_of_nil ((freeFrames_countDown hcount).trans hfree)
  rw [copyOnWrite_eq (hp.trans (by decide)) (ne_paginaAUsar hp) hpres]
  dsimp only
  rw [nextFrame, halloc]
  dsimp only
  rw [frameField_neg_one]

end Mm

end ZeOS.Practica
