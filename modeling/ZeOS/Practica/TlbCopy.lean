import ZeOS.Practica.CopyBranch

/-!
# The copy of the fault handler through a TLB

On a machine with a TLB a translation that is kept is used in place of the
entry of the page table. The copy of the fault handler goes through the
borrowed page: with a frame kept for that page every byte of the copy is
written to that frame, and only the memory is different then. With none kept,
or the new one, the handler does what it does without a TLB.
-/

namespace ZeOS.Practica

/-- What a TLB holds: the frames of the pages it keeps. -/
abbrev Tlb := ℕ → Option ℕ

namespace Mm

variable {m : Mm} {s : Slot} {tlb : Tlb}

/-- The physical byte behind an address: from the TLB where it has the page,
and from the page table where it has not. -/
def translateBy (tlb : Tlb) (m : Mm) (s : Slot) (addr : ℕ) : Option Location :=
  match tlb (addr % 2 ^ 32 / pageSize) with
  | some frame => some (frame, addr % pageSize)
  | none => m.translate s addr

/-- A load in kernel mode on a machine with a TLB. -/
def loadBy (tlb : Tlb) (s : Slot) (x : Mm × List Location) (addr : ℕ) : Byte :=
  match x.1.translateBy tlb s addr with
  | some loc => x.1.ram loc
  | none => 0

/-- A store in kernel mode on a machine with a TLB. The bytes written are
listed. -/
def storeBy (tlb : Tlb) (s : Slot) (x : Mm × List Location) (addr : ℕ) (b : Byte) :
    Mm × List Location :=
  match x.1.translateBy tlb s addr with
  | some loc => (x.1.store loc b, x.2 ++ [loc])
  | none => ({ x.1 with stuck := true }, x.2)

/-- The byte map the handler allocates from: the count of the shared frame
has gone down. -/
def countedDown (m : Mm) (s : Slot) (posicion : ℕ) : PhysMem :=
  let shared := getFrame (m.pagusrTable s) posicion
  Function.update m.physMem shared (m.physMem shared - 1)

/-- The number `alloc_frame` returns to the handler. -/
def newFrame (m : Mm) (s : Slot) (posicion : ℕ) : ℤ := (allocFrame (m.countedDown s posicion)).1

/-- The memory the copy of the handler runs on: the new frame is mapped at
the borrowed page. -/
def lent (m : Mm) (s : Slot) (posicion : ℕ) : Mm :=
  { m with physMem := (allocFrame (m.countedDown s posicion)).2 }.setTable s
    (setSsPag (m.pagusrTable s) paginaAUsar (m.newFrame s posicion))

/-- **The copy of the fault handler** on a machine with a TLB, and the bytes
it writes. -/
def copyBy (tlb : Tlb) (m : Mm) (cr3 s : Slot) (posicion : ℕ) : Mm × List Location :=
  copyLoop (loadBy tlb cr3) (storeBy tlb cr3) (m.lent s posicion, []) (posicion * pageSize)
    (paginaAUsar * pageSize) pageSize

/-- The copying branch of the fault handler on a machine with a TLB. -/
def copyOnWriteBy (tlb : Tlb) (m : Mm) (cr3 s : Slot) (posicion : ℕ) : Mm :=
  let found := ((m.lent s posicion).translateBy tlb cr3 (posicion * pageSize)).isSome
  ((m.copyBy tlb cr3 s posicion).1.require found).giveBack s posicion (m.newFrame s posicion)
    (m.frameaux s)

/-- `pagefault_routine` on a machine with a TLB. -/
def pagefaultRoutineBy (tlb : Tlb) (m : Mm) (cr3 s : Slot) (cr2 : DWord) : Option Mm :=
  let posicion := pageOf cr2
  let m := m.require (posicion < totalPages)
  let frame := getFrame (m.pagusrTable s) posicion
  let m := m.require (frame < totalPages)
  let value := m.physMem frame
  if value = 0 then none
  else if value = 1 then
    some (m.setTable s (setRw (m.pagusrTable s) posicion true))
  else some (m.copyOnWriteBy tlb cr3 s posicion)

end Mm

/-! ## What a copy writes -/

section Log

variable {M L : Type*} {load : M → ℕ → Byte} {store : M → ℕ → Byte → M} {I : M → Prop}
  {w : M → List L} {dst : ℕ → L}

/-- **The copy loop stores to its range in order**: where every store to the
range adds its destination to a list `w`, the loop adds those of the range. -/
theorem copyBytes_log {size : ℕ} {m : M} {p q : ℕ} (hm : I m)
    (hstore : ∀ m b r, q ≤ r → r < q + size → I m →
      I (store m r b) ∧ w (store m r b) = w m ++ [dst r]) :
    w (copyBytes load store m p q size) = w m ++ (List.range' q size).map dst := by
  induction size generalizing m p q with
  | zero => exact (List.append_nil _).symm
  | succ size ih =>
    obtain ⟨hm', hlog⟩ := hstore m (load m p) q le_rfl (by omega) hm
    rw [copyBytes, ih hm' fun m b r h₁ h₂ => hstore m b r (by omega) (by omega), hlog,
      List.append_assoc, List.range'_succ, List.map_cons]
    rfl

theorem copyLoop_log {size : ℕ} {m : M} {p q : ℕ} (hm : I m)
    (hstore : ∀ m b r, q ≤ r → r < q + size → I m →
      I (store m r b) ∧ w (store m r b) = w m ++ [dst r]) :
    w (copyLoop load store m p q size) = w m ++ (List.range' q size).map dst := by
  induction size using Nat.strong_induction_on generalizing m p q with
  | _ size ih =>
    match size with
    | 0 => exact copyBytes_log hm hstore
    | 1 => exact copyBytes_log hm hstore
    | 2 => exact copyBytes_log hm hstore
    | 3 => exact copyBytes_log hm hstore
    | 4 => exact copyBytes_log hm hstore
    | size + 5 =>
      -- a word
      rw [copyLoop, copyWord]
      obtain ⟨hm₁, h₁⟩ := hstore m (load m p) q (by omega) (by omega) hm
      obtain ⟨hm₂, h₂⟩ := hstore _ (load m (p + 1)) (q + 1) (by omega) (by omega) hm₁
      obtain ⟨hm₃, h₃⟩ := hstore _ (load m (p + 2)) (q + 2) (by omega) (by omega) hm₂
      obtain ⟨hm₄, h₄⟩ := hstore _ (load m (p + 3)) (q + 3) (by omega) (by omega) hm₃
      rw [ih (size + 1) (by omega) hm₄ fun m b r h h' => hstore m b r (by omega) (by omega),
        h₄, h₃, h₂, h₁]
      simp only [List.append_assoc]
      rw [show size + 5 = (((size + 1 + 1) + 1) + 1) + 1 from rfl, List.range'_succ,
        List.range'_succ, List.range'_succ, List.range'_succ]
      rfl

/-- **A map that respects loads and stores respects the copy loop.** -/
theorem copyBytes_map {M' : Type*} {load' : M' → ℕ → Byte} {store' : M' → ℕ → Byte → M'}
    {f : M → M'} (hload : ∀ m p, I m → load m p = load' (f m) p)
    (hstore : ∀ m q b, I m → I (store m q b) ∧ f (store m q b) = store' (f m) q b)
    {size : ℕ} {m : M} {p q : ℕ} (hm : I m) :
    f (copyBytes load store m p q size) = copyBytes load' store' (f m) p q size := by
  induction size generalizing m p q with
  | zero => rfl
  | succ size ih =>
    obtain ⟨hm', hf⟩ := hstore m q (load m p) hm
    rw [copyBytes, ih hm', hf, copyBytes, hload m p hm]

theorem copyLoop_map {M' : Type*} {load' : M' → ℕ → Byte} {store' : M' → ℕ → Byte → M'}
    {f : M → M'} (hload : ∀ m p, I m → load m p = load' (f m) p)
    (hstore : ∀ m q b, I m → I (store m q b) ∧ f (store m q b) = store' (f m) q b)
    {size : ℕ} {m : M} {p q : ℕ} (hm : I m) :
    f (copyLoop load store m p q size) = copyLoop load' store' (f m) p q size := by
  induction size using Nat.strong_induction_on generalizing m p q with
  | _ size ih =>
    match size with
    | 0 => exact copyBytes_map hload hstore hm
    | 1 => exact copyBytes_map hload hstore hm
    | 2 => exact copyBytes_map hload hstore hm
    | 3 => exact copyBytes_map hload hstore hm
    | 4 => exact copyBytes_map hload hstore hm
    | size + 5 =>
      rw [copyLoop, copyLoop, copyWord, copyWord]
      obtain ⟨hm₁, h₁⟩ := hstore m q (load m p) hm
      obtain ⟨hm₂, h₂⟩ := hstore _ (q + 1) (load m (p + 1)) hm₁
      obtain ⟨hm₃, h₃⟩ := hstore _ (q + 2) (load m (p + 2)) hm₂
      obtain ⟨hm₄, h₄⟩ := hstore _ (q + 3) (load m (p + 3)) hm₃
      rw [ih (size + 1) (by omega) hm₄, h₄, h₃, h₂, h₁]
      simp only [hload m _ hm]

end Log

namespace Mm

variable {m : Mm} {s : Slot} {tlb : Tlb} {posicion : ℕ}

/-- Where the borrowed page leads while the copy runs. -/
theorem translateBy_borrowed (m : Mm) (s : Slot) (posicion : ℕ) (tlb : Tlb) {m₁ : Mm}
    (htab : m₁.pagusrTable = (m.lent s posicion).pagusrTable) {i : ℕ} (hi : i < pageSize) :
    m₁.translateBy tlb s (paginaAUsar * pageSize + i)
      = some ((tlb paginaAUsar).getD (frameField (m.newFrame s posicion)), i) := by
  have hdiv : (paginaAUsar * pageSize + i) % 2 ^ 32 / pageSize = paginaAUsar := by
    simp only [paginaAUsar, numPagCode, numPagKernel, numPagData, pageSize] at *
    omega
  have hmod : (paginaAUsar * pageSize + i) % pageSize = i := by
    simp only [pageSize] at *
    omega
  have hentry : m₁.pagusrTable s paginaAUsar = PageTableEntry.mapping (m.newFrame s posicion) := by
    rw [htab, lent, setTable_apply, if_pos rfl, setSsPag_apply, if_pos rfl]
    rfl
  rw [translateBy, hdiv]
  cases htlb : tlb paginaAUsar with
  | some f =>
    rw [hmod]
    rfl
  | none =>
    have hpres : (m₁.pagusrTable s paginaAUsar).present = true := by
      rw [hentry]
      rfl
    refine (translate_page (by decide) hi hpres).trans ?_
    rw [getFrame, hentry]
    rfl

/-- **The bytes the copy writes** are those of one frame: the one the TLB has
for the borrowed page, and the new one if it has none. -/
theorem mem_copyBy_iff {loc : Location} :
    loc ∈ (m.copyBy tlb s s posicion).2
      ↔ loc.1 = (tlb paginaAUsar).getD (frameField (m.newFrame s posicion))
        ∧ loc.2 < pageSize := by
  set g := (tlb paginaAUsar).getD (frameField (m.newFrame s posicion)) with hg
  have hlog : (m.copyBy tlb s s posicion).2 = [] ++ (List.range' (paginaAUsar * pageSize)
      pageSize).map (fun r => (g, r - paginaAUsar * pageSize)) := by
    refine copyLoop_log (w := Prod.snd)
      (I := fun x : Mm × List Location => x.1.pagusrTable = (m.lent s posicion).pagusrTable) rfl ?_
    intro x b r h₁ h₂ hx
    have htr := translateBy_borrowed m s posicion tlb hx
      (i := r - paginaAUsar * pageSize) (by omega)
    rw [Nat.add_sub_cancel' h₁] at htr
    rw [storeBy, htr]
    exact ⟨hx, rfl⟩
  rw [hlog, List.nil_append, List.mem_map]
  constructor
  · rintro ⟨r, hr, rfl⟩
    rw [List.mem_range'_1] at hr
    exact ⟨rfl, by dsimp only; omega⟩
  · rintro ⟨h₁, h₂⟩
    refine ⟨paginaAUsar * pageSize + loc.2, List.mem_range'_1.mpr ⟨by omega, by omega⟩, ?_⟩
    exact Prod.ext h₁.symm (Nat.add_sub_cancel_left _ _)

/-- The frame the copy goes to. -/
def copyTarget (m : Mm) (tlb : Tlb) (s : Slot) (posicion : ℕ) : ℕ :=
  (tlb paginaAUsar).getD (frameField (m.newFrame s posicion))

/-- The TLB has nothing else for the page of the fault than the table. -/
def KeepsSource (m : Mm) (tlb : Tlb) (s : Slot) (posicion : ℕ) : Prop :=
  ∀ f, tlb posicion = some f → f = getFrame (m.pagusrTable s) posicion

section Page

variable (hp : posicion < totalPages) (hne : posicion ≠ paginaAUsar)
  (hpres : (m.pagusrTable s posicion).present = true) (hsrc : m.KeepsSource tlb s posicion)

include hp hne hpres hsrc

/-- Where the page of the fault leads while the copy runs. -/
theorem translateBy_source {m₁ : Mm} (htab : m₁.pagusrTable = (m.lent s posicion).pagusrTable)
    {i : ℕ} (hi : i < pageSize) :
    m₁.translateBy tlb s (posicion * pageSize + i)
      = some (getFrame (m.pagusrTable s) posicion, i) := by
  have hdiv : (posicion * pageSize + i) % 2 ^ 32 / pageSize = posicion := by
    simp only [totalPages, pageSize] at *
    omega
  have hmod : (posicion * pageSize + i) % pageSize = i := by
    simp only [pageSize] at *
    omega
  have hentry : m₁.pagusrTable s posicion = m.pagusrTable s posicion := by
    rw [htab, lent, setTable_apply, if_pos rfl, setSsPag_apply, if_neg hne]
  rw [translateBy, hdiv]
  cases htlb : tlb posicion with
  | some f =>
    rw [hmod, hsrc f htlb]
  | none =>
    refine (translate_page hp hi (hentry ▸ hpres)).trans ?_
    rw [getFrame, hentry]
    rfl

/-- **What the copy does to the memory**: it goes to one frame. -/
theorem copyBy_eq (htarget : numPagKernel ≤ m.copyTarget tlb s posicion) :
    (m.copyBy tlb s s posicion).1 = { m.lent s posicion with
      ram := fun loc =>
        if loc.1 = m.copyTarget tlb s posicion ∧ loc.2 < pageSize then
          m.ram (getFrame (m.pagusrTable s) posicion, loc.2)
        else m.ram loc } := by
  have hload : ∀ ram : Location → Byte, ∀ i < pageSize,
      loadBy tlb s ({ m.lent s posicion with ram := ram }, []) (posicion * pageSize + i)
        = ram (getFrame (m.pagusrTable s) posicion, i) := by
    intro ram i hi
    rw [loadBy, translateBy_source hp hne hpres hsrc (by rfl) hi]
  have hstore : ∀ (ram : Location → Byte) (b : Byte), ∀ i < pageSize,
      (storeBy tlb s ({ m.lent s posicion with ram := ram }, []) (paginaAUsar * pageSize + i) b).1
        = { m.lent s posicion with
            ram := Function.update ram (m.copyTarget tlb s posicion, i) b } := by
    intro ram b i hi
    rw [storeBy, translateBy_borrowed m s posicion tlb (by rfl) hi]
    exact store_of_le htarget b
  -- the bytes that are listed do not matter
  have hfst : (m.copyBy tlb s s posicion).1
      = copyLoop (fun x => loadBy tlb s (x, [])) (fun x q b => (storeBy tlb s (x, []) q b).1)
        (m.lent s posicion) (posicion * pageSize) (paginaAUsar * pageSize) pageSize := by
    rw [copyBy]
    refine copyLoop_map (f := Prod.fst) (I := fun _ => True) (fun x p _ => ?_)
      (fun x q b _ => ⟨trivial, ?_⟩) trivial
    · rw [loadBy, loadBy]
    · rw [storeBy, storeBy]
      cases x.1.translateBy tlb s q <;> rfl
  have h := copyLoop_frame (fun x => loadBy tlb s (x, []))
    (fun x q b => (storeBy tlb s (x, []) q b).1)
    (fun ram : Location → Byte => { m.lent s posicion with ram := ram }) hload hstore m.ram
  exact hfst.trans h

/-- **What the copying branch does** on a machine with a TLB: all but the
frame of the copy is as without one. -/
theorem copyOnWriteBy_eq (htarget : numPagKernel ≤ m.copyTarget tlb s posicion) :
    m.copyOnWriteBy tlb s s posicion = { m.copyOnWrite s s posicion with
      ram := fun loc =>
        if loc.1 = m.copyTarget tlb s posicion ∧ loc.2 < pageSize then
          m.ram (getFrame (m.pagusrTable s) posicion, loc.2)
        else m.ram loc } := by
  have hstart : (m.lent s posicion).translateBy tlb s (posicion * pageSize + 0) = _ :=
    translateBy_source hp hne hpres hsrc rfl (by decide)
  rw [Nat.add_zero] at hstart
  rw [copyOnWriteBy, hstart, copyBy_eq hp hne hpres hsrc htarget, giveBack_eq,
    copyOnWrite_eq hp hne hpres]
  · refine Mm.ext rfl ?_ rfl rfl ?_
    · exact setTable_setTable { m with physMem := _ } s _ _
    · exact Bool.or_false m.stuck
  · exact (setTable_apply _ s _ s).trans (if_pos rfl)

/-- **Where the two agree**: a TLB with nothing for the borrowed page, or with
the new frame, leaves the handler what it is without one. -/
theorem copyOnWriteBy_eq_copyOnWrite
    (htlb : ∀ f, tlb paginaAUsar = some f → f = frameField (m.newFrame s posicion)) :
    m.copyOnWriteBy tlb s s posicion = m.copyOnWrite s s posicion := by
  have htarget : m.copyTarget tlb s posicion = frameField (m.newFrame s posicion) := by
    rw [copyTarget]
    cases h : tlb paginaAUsar with
    | none => rfl
    | some f => exact htlb f h
  rw [copyOnWriteBy_eq hp hne hpres hsrc (htarget ▸ numPagKernel_le_nextFrame _), htarget,
    copyOnWrite_eq hp hne hpres]
  rfl

end Page

/-- **A copy that finds a frame** writes it, or the frame the TLB has for the
borrowed page. -/
theorem copyOnWriteBy_of_cons {g : ℕ} {gs : List ℕ} (hp : posicion < pagLogInitShared)
    (hpres : (m.pagusrTable s posicion).present = true) (hsrc : m.KeepsSource tlb s posicion)
    (hcount : 2 ≤ m.physMem (getFrame (m.pagusrTable s) posicion))
    (hfree : freeFrames m.physMem = g :: gs)
    (hlent : ∀ fr, tlb paginaAUsar = some fr → numPagKernel ≤ fr) :
    m.copyOnWriteBy tlb s s posicion =
      { m.setTable s (privateTable (m.pagusrTable s) posicion g) with
        physMem := Function.update (Function.update m.physMem
          (getFrame (m.pagusrTable s) posicion)
          (m.physMem (getFrame (m.pagusrTable s) posicion) - 1)) g 1
        ram := fun loc =>
          if loc.1 = (tlb paginaAUsar).getD g ∧ loc.2 < pageSize then
            m.ram (getFrame (m.pagusrTable s) posicion, loc.2)
          else m.ram loc } := by
  obtain ⟨hge, hglt, -⟩ := mem_frameScan.mp (mem_freeFrames.mp (hfree ▸ List.mem_cons_self)).1
  have hnew : frameField (m.newFrame s posicion) = g := by
    have hdown : freeFrames (m.countedDown s posicion) = g :: gs :=
      (freeFrames_countDown hcount).trans hfree
    rw [newFrame, allocFrame_of_cons hdown, frameField_natCast hglt]
  have htarget : m.copyTarget tlb s posicion = (tlb paginaAUsar).getD g := by
    rw [copyTarget, hnew]
  have hle : numPagKernel ≤ m.copyTarget tlb s posicion := by
    rw [htarget]
    cases htlb : tlb paginaAUsar with
    | none => exact hge
    | some fr => exact hlent fr htlb
  rw [copyOnWriteBy_eq (hp.trans (by decide)) (ne_paginaAUsar hp) hpres hsrc hle, htarget,
    copyOnWrite_of_cons hp hpres hcount hfree]

/-- A fault on a shared page goes to the copying branch. -/
theorem pagefaultRoutineBy_of_shared {cr3 : Slot} {cr2 : DWord} (hp : pageOf cr2 < totalPages)
    (hframe : getFrame (m.pagusrTable s) (pageOf cr2) < totalPages)
    (hcount : 2 ≤ m.physMem (getFrame (m.pagusrTable s) (pageOf cr2))) :
    m.pagefaultRoutineBy tlb cr3 s cr2 = some (m.copyOnWriteBy tlb cr3 s (pageOf cr2)) := by
  have hdown : (m.require (pageOf cr2 < totalPages)).require
      (getFrame (m.pagusrTable s) (pageOf cr2) < totalPages) = m := by
    refine Mm.ext rfl rfl rfl rfl ?_
    rw [require, require, decide_eq_true hp, decide_eq_true hframe]
    simp
  have hcase : m.pagefaultRoutineBy tlb cr3 s cr2
      = if m.physMem (getFrame (m.pagusrTable s) (pageOf cr2)) = 0 then none
        else if m.physMem (getFrame (m.pagusrTable s) (pageOf cr2)) = 1 then
          some (((m.require (pageOf cr2 < totalPages)).require
            (getFrame (m.pagusrTable s) (pageOf cr2) < totalPages)).setTable s
              (setRw (m.pagusrTable s) (pageOf cr2) true))
        else some (((m.require (pageOf cr2 < totalPages)).require
          (getFrame (m.pagusrTable s) (pageOf cr2) < totalPages)).copyOnWriteBy tlb cr3 s
            (pageOf cr2)) := rfl
  rw [hcase, hdown, if_neg (by omega), if_neg (by omega)]

end Mm

end ZeOS.Practica
