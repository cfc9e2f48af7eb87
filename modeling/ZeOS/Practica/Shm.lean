import ZeOS.Practica.Outcome

/-!
# What the calls on shared segments do

`sys_shmat` maps a segment at a page that was not present, or changes
nothing. `sys_shmdt` counts a reference down; only where the segment is
marked for removal and the count has reached zero does it go on to clear the
segment and unmap the page. `sys_shmrm` sets the mark.
-/

namespace ZeOS.Practica

namespace Mm

variable {m : Mm} {s : Slot}

/-- The memory with the reference count of a segment changed. -/
def addRef (m : Mm) (i : ℕ) (d : ℤ) : Mm :=
  { m with
    shmMem := Function.update m.shmMem i
      { m.shmMem i with referencias := (m.shmMem i).referencias + d } }

@[simp] theorem addRef_self (i : ℕ) (d : ℤ) : (m.addRef i d).shmMem i
    = { m.shmMem i with referencias := (m.shmMem i).referencias + d } :=
  Function.update_self i _ _

@[simp] theorem addRef_stuck (i : ℕ) (d : ℤ) : (m.addRef i d).stuck = m.stuck := rfl

theorem CountsWithin.addRef {b : ℤ} (h : m.CountsWithin b) (i : ℕ) {d : ℤ} (h₁ : -1 ≤ d)
    (h₂ : d ≤ 1) : (m.addRef i d).CountsWithin (b + 1) := by
  intro j hj
  obtain ⟨hlow, hhigh⟩ := h j hj
  show -(b + 1) ≤ (Function.update m.shmMem i _ j).referencias
    ∧ (Function.update m.shmMem i _ j).referencias ≤ b + 1
  rw [Function.update_apply]
  split_ifs with hji
  · rw [hji] at hlow hhigh
    dsimp only
    exact ⟨by omega, by omega⟩
  · exact ⟨by omega, by omega⟩

theorem findFreePage_eq_some {pt : PageTable} {access page : ℕ}
    (h : findFreePage pt access = some page) :
    access ≤ page ∧ page < totalPages ∧ (pt page).present = false := by
  have hmem := List.mem_of_find?_eq_some h
  have hp := List.find?_some h
  rw [List.mem_range'_1] at hmem
  exact ⟨hmem.1, by omega, by simpa using hp⟩

/-- The search begins at the page asked for. -/
theorem findFreePage_self {pt : PageTable} {access : ℕ} (hlt : access < totalPages)
    (habs : (pt access).present = false) : findFreePage pt access = some access := by
  obtain ⟨n, hn⟩ := Nat.exists_eq_succ_of_ne_zero (Nat.sub_ne_zero_of_lt hlt)
  rw [findFreePage, hn, List.range'_succ, List.find?_cons_of_pos]
  rw [habs]
  rfl

/-- The arguments `sys_shmat` accepts: an address at the start of a page, and
a segment of the table. -/
def ShmatAccepts (id addr : DWord) : Prop :=
  addr &&& 0xfff#32 = 0 ∧ 0 ≤ id.toInt ∧ id.toInt < shmLength

section Shmat

variable {id addr : DWord}

theorem ShmatAccepts.id_lt (h : ShmatAccepts id addr) : id.toNat < shmLength := by
  have hid := h.2.2
  rw [toInt_eq_toNat_of_nonneg h.2.1] at hid
  exact Int.ofNat_lt.mp hid

/-- **The tests of `sys_shmat`**: what they do not let through fails and
changes nothing. -/
theorem sysShmat_of_not_accepts (h : ¬ ShmatAccepts id addr) :
    (m.sysShmat s id addr).1 < 0 ∧ (m.sysShmat s id addr).2 = m := by
  unfold sysShmat
  by_cases halign : addr &&& 0xfff#32 ≠ 0
  · rw [if_pos halign]
    exact ⟨show -eCANCELED < 0 by decide, rfl⟩
  by_cases hid : id.toInt < 0 ∨ (shmLength : ℤ) ≤ id.toInt
  · rw [if_neg halign, if_pos hid]
    exact ⟨show -eINVAL < 0 by decide, rfl⟩
  exact absurd ⟨not_not.mp halign, by omega, by omega⟩ h

/-- **`sys_shmat` past its tests**: the segment goes to the first page from
the one asked for on that is not present, if there is one. -/
theorem sysShmat_of_accepts (h : ShmatAccepts id addr)
    (hlt : (addr.sshiftRight 12).toNat < totalPages) :
    m.sysShmat s id addr
      = (findFreePage (m.pagusrTable s) (addr.sshiftRight 12).toNat).elim (-eINVAL, m)
          (fun page => (((page * pageSize : ℕ) : ℤ), m.attach s id.toNat page)) := by
  obtain ⟨halign, h₁, h₂⟩ := h
  have hreq : m.require ((addr.sshiftRight 12).toNat < totalPages) = m :=
    Mm.ext rfl rfl rfl rfl (by rw [require, decide_eq_true hlt]; simp)
  unfold sysShmat
  rw [if_neg (not_not.mpr halign), if_neg (by omega)]
  dsimp only
  rw [hreq]
  by_cases hpres : (m.pagusrTable s (addr.sshiftRight 12).toNat).present = true
  · rw [if_pos hpres]
    cases findFreePage (m.pagusrTable s) (addr.sshiftRight 12).toNat with
    | none => rfl
    | some page => rfl
  · rw [if_neg hpres, findFreePage_self hlt (Bool.eq_false_iff.mpr hpres)]
    rfl

/-- With the mark down, the page asked for is one of the table. -/
theorem lt_of_sysShmat (h : (m.sysShmat s id addr).2.stuck = false)
    (hacc : ShmatAccepts id addr) : (addr.sshiftRight 12).toNat < totalPages := by
  obtain ⟨halign, h₁, h₂⟩ := hacc
  unfold sysShmat at h
  rw [if_neg (not_not.mpr halign), if_neg (by omega)] at h
  dsimp only at h
  have hreq : (m.require ((addr.sshiftRight 12).toNat < totalPages)).stuck = false := by
    split_ifs at h with hpres
    · cases hfind : findFreePage ((m.require ((addr.sshiftRight 12).toNat
          < totalPages)).pagusrTable s) (addr.sshiftRight 12).toNat with
      | none => rwa [hfind] at h
      | some page => rwa [hfind] at h
    · exact h
  exact ((require_stuck m _).mp hreq).2

/-- **`sys_shmat`**: nothing, or a segment mapped at a page that was not
present. -/
theorem sysShmat_cases (h : (m.sysShmat s id addr).2.stuck = false) :
    (m.sysShmat s id addr).2 = m
      ∨ ∃ i page, i < shmLength ∧ page < totalPages ∧ (m.pagusrTable s page).present = false
          ∧ ShmatAccepts id addr ∧ (addr.sshiftRight 12).toNat ≤ page
          ∧ (m.sysShmat s id addr).2 = m.attach s i page := by
  by_cases hacc : ShmatAccepts id addr
  · rw [sysShmat_of_accepts hacc (lt_of_sysShmat h hacc)]
    cases hfind : findFreePage (m.pagusrTable s) (addr.sshiftRight 12).toNat with
    | none => exact Or.inl rfl
    | some page =>
      obtain ⟨hle, hlt, hnot⟩ := findFreePage_eq_some hfind
      exact Or.inr ⟨id.toNat, page, hacc.id_lt, hlt, hnot, hacc, hle, rfl⟩
  · exact Or.inl (sysShmat_of_not_accepts hacc).2

/-- Where the page asked for is not present, the segment goes there. -/
theorem sysShmat_absent (hacc : ShmatAccepts id addr)
    (hlt : (addr.sshiftRight 12).toNat < totalPages)
    (hpres : (m.pagusrTable s (addr.sshiftRight 12).toNat).present = false) :
    (m.sysShmat s id addr).2 = m.attach s id.toNat (addr.sshiftRight 12).toNat := by
  rw [sysShmat_of_accepts hacc hlt, findFreePage_self hlt hpres]
  rfl

end Shmat

@[simp] theorem attach_stuck (i page : ℕ) : (m.attach s i page).stuck = m.stuck := rfl

theorem CountsWithin.attach {b : ℤ} (h : m.CountsWithin b) (s : Slot) (i page : ℕ) :
    (m.attach s i page).CountsWithin (b + 1) := h.addRef i (d := 1) (by decide) le_rfl

/-- A segment found by its frame. -/
def segmentAt (m : Mm) (s : Slot) (page : ℕ) : Option ℕ :=
  if page < totalPages ∧ (m.pagusrTable s page).present = true then
    (List.range shmLength).find?
      (fun i => decide ((m.shmMem i).shmMemFrameAddr = getFrame (m.pagusrTable s) page))
  else none

theorem segmentAt_eq_some {page i : ℕ} (h : m.segmentAt s page = some i) :
    page < totalPages ∧ (m.pagusrTable s page).present = true ∧ i < shmLength
      ∧ (m.shmMem i).shmMemFrameAddr = getFrame (m.pagusrTable s) page := by
  unfold segmentAt at h
  split_ifs at h with hp
  have hmem := List.mem_of_find?_eq_some h
  have hf := List.find?_some h
  exact ⟨hp.1, hp.2, List.mem_range.mp hmem, of_decide_eq_true hf⟩

theorem ramOnly_clearWord (m : Mm) (s : Slot) (j : ℕ) : RamOnly m (clearWord s m j) := by
  unfold clearWord
  generalize List.range 8 = l
  induction l generalizing m with
  | nil => exact RamOnly.refl m
  | cons i l ih => exact (ramOnly_kernelStore m s (j + i) 0).trans (ih _)

theorem ramOnly_foldl_clearWord (m : Mm) (s : Slot) (l : List ℕ) :
    RamOnly m (l.foldl (clearWord s) m) := by
  induction l generalizing m with
  | nil => exact RamOnly.refl m
  | cons j l ih => exact (ramOnly_clearWord m s j).trans (ih _)

/-- The page a call of `sys_shmdt` names. -/
def shmdtPage (addr : DWord) : ℕ := (addr &&& 0xfffff000#32).toNat / pageSize

/-- A page without a segment. -/
theorem sysShmdt_none {cr3 : Slot} {addr : DWord} (hseg : m.segmentAt s (shmdtPage addr) = none) :
    (m.sysShmdt cr3 s addr).2 = m := by
  unfold sysShmdt segmentAt shmdtPage at *
  dsimp only
  by_cases hlt : totalPages ≤ (addr &&& 0xfffff000#32).toNat / pageSize
  · rw [if_pos hlt]
  · by_cases hpres : (m.pagusrTable s ((addr &&& 0xfffff000#32).toNat / pageSize)).present = false
    · rw [if_neg hlt, if_pos hpres]
    · rw [if_pos ⟨Nat.not_le.mp hlt, Bool.not_eq_false _ ▸ hpres⟩] at hseg
      rw [if_neg hlt, if_neg hpres, hseg]

/-- A page with a segment: the call returns 0, and the reference is counted
down first. -/
theorem sysShmdt_some {cr3 : Slot} {addr : DWord} {i : ℕ}
    (hseg : m.segmentAt s (shmdtPage addr) = some i) :
    (m.sysShmdt cr3 s addr).1 = 0
      ∧ (m.sysShmdt cr3 s addr).2 =
        if (m.shmMem i).aBorrar = false ∨ (m.shmMem i).referencias ≠ 1 then m.addRef i (-1)
        else
          let m₁ := (List.range' (addr &&& 0xfffff000#32).toNat (pageSize / 8 / 8) 8).foldl
            (clearWord cr3) (m.addRef i (-1))
          { m₁ with
            shmMem := Function.update m₁.shmMem i { m₁.shmMem i with aBorrar := false } }.setTable s
              (delSsPag (m₁.pagusrTable s) (shmdtPage addr)) := by
  unfold sysShmdt segmentAt shmdtPage at *
  dsimp only
  split_ifs at hseg with hpage
  have hpres : ¬ (m.pagusrTable s ((addr &&& 0xfffff000#32).toNat / pageSize)).present = false := by
    rw [hpage.2]
    decide
  rw [if_neg (Nat.not_le.mpr hpage.1), if_neg hpres, hseg]
  dsimp only
  simp only [Function.update_self, addRef, Int.add_neg_eq_sub]
  have hearly : ((m.shmMem i).aBorrar = false ∨ (m.shmMem i).referencias - 1 ≠ 0)
      ↔ (m.shmMem i).aBorrar = false ∨ (m.shmMem i).referencias ≠ 1 :=
    or_congr Iff.rfl (not_congr (by omega))
  rw [apply_ite Prod.fst, apply_ite Prod.snd]
  exact ⟨ite_self 0, if_congr hearly rfl rfl⟩

/-- On a segment that is not to be removed the call returns there. -/
theorem sysShmdt_unmarked {cr3 : Slot} {addr : DWord} {i : ℕ}
    (hseg : m.segmentAt s (shmdtPage addr) = some i) (hmark : (m.shmMem i).aBorrar = false) :
    (m.sysShmdt cr3 s addr).2 = m.addRef i (-1) := by
  rw [(sysShmdt_some hseg).2, if_pos (Or.inl hmark)]

/-- **`sys_shmdt`**: nothing where the page maps no segment; a reference
less; or, where the segment is marked and has lost its last reference, the
bytes, the mark and the entry as well. -/
theorem sysShmdt_cases {cr3 : Slot} {addr : DWord}
    (h : (m.sysShmdt cr3 s addr).2.stuck = false) :
    m.segmentAt s (shmdtPage addr) = none ∧ (m.sysShmdt cr3 s addr).2 = m
      ∨ ∃ i, m.segmentAt s (shmdtPage addr) = some i ∧
        (((m.shmMem i).aBorrar = false ∨ (m.shmMem i).referencias ≠ 1)
            ∧ (m.sysShmdt cr3 s addr).2 = m.addRef i (-1)
          ∨ ((m.shmMem i).aBorrar = true ∧ (m.shmMem i).referencias = 1)
            ∧ ∃ ram, (m.sysShmdt cr3 s addr).2 =
              { m.setTable s (delSsPag (m.pagusrTable s) (shmdtPage addr)) with
                shmMem := Function.update m.shmMem i
                  { m.shmMem i with referencias := 0, aBorrar := false }
                ram := ram }) := by
  cases hseg : m.segmentAt s (shmdtPage addr) with
  | none => exact Or.inl ⟨rfl, sysShmdt_none hseg⟩
  | some i =>
    refine Or.inr ⟨i, rfl, ?_⟩
    rw [(sysShmdt_some hseg).2] at h ⊢
    by_cases hearly : (m.shmMem i).aBorrar = false ∨ (m.shmMem i).referencias ≠ 1
    · rw [if_pos hearly]
      exact Or.inl ⟨hearly, rfl⟩
    · rw [if_neg hearly] at h ⊢
      push Not at hearly
      refine Or.inr ⟨⟨by simpa using hearly.1, hearly.2⟩, ?_⟩
      dsimp only at h ⊢
      -- the clearing loop changes bytes only
      have hram := ramOnly_foldl_clearWord (m.addRef i (-1)) cr3
        (List.range' (addr &&& 0xfffff000#32).toNat (pageSize / 8 / 8) 8)
      generalize (List.range' (addr &&& 0xfffff000#32).toNat (pageSize / 8 / 8) 8).foldl
        (clearWord cr3) (m.addRef i (-1)) = m₁ at h hram
      have hshm : m₁.shmMem i
          = { m.shmMem i with referencias := (m.shmMem i).referencias + -1 } := by
        rw [hram.shmMem, addRef_self]
      refine ⟨m₁.ram, Mm.ext hram.physMem ?_ ?_ rfl (h.trans (hram.stuck h).symm)⟩
      · funext t
        simp only [setTable_apply, hram.pagusrTable]
        rfl
      · simp only [setTable_shmMem, hshm, hearly.2]
        rw [hram.shmMem, addRef, Function.update_idem]
        rfl

/-- The counts after `sys_shmdt`. -/
theorem sysShmdt_referencias {cr3 : Slot} {addr : DWord}
    (h : (m.sysShmdt cr3 s addr).2.stuck = false) (j : ℕ) :
    ((m.sysShmdt cr3 s addr).2.shmMem j).referencias
      = (m.shmMem j).referencias - if m.segmentAt s (shmdtPage addr) = some j then 1 else 0 := by
  rcases sysShmdt_cases h with ⟨hseg, hm⟩ | ⟨i, hseg, ⟨-, hm⟩ | ⟨⟨-, hlast⟩, ram, hm⟩⟩
  · rw [hm, if_neg (by rw [hseg]; exact nofun), Int.sub_zero]
  · rw [hm, addRef, hseg]
    dsimp only
    rw [Function.update_apply]
    by_cases hj : j = i
    · rw [if_pos hj, if_pos (congrArg some hj.symm), hj]
      rfl
    · rw [if_neg hj, if_neg (fun hc => hj (Option.some_inj.mp hc).symm), Int.sub_zero]
  · rw [hm, hseg]
    dsimp only
    rw [Function.update_apply]
    by_cases hj : j = i
    · rw [if_pos hj, if_pos (congrArg some hj.symm), hj, hlast]
      rfl
    · rw [if_neg hj, if_neg (fun hc => hj (Option.some_inj.mp hc).symm), Int.sub_zero]

theorem CountsWithin.sysShmdt {cr3 : Slot} {addr : DWord} {b : ℤ} (hb : m.CountsWithin b)
    (h : (m.sysShmdt cr3 s addr).2.stuck = false) :
    (m.sysShmdt cr3 s addr).2.CountsWithin (b + 1) := by
  intro j hj
  obtain ⟨h₁, h₂⟩ := hb j hj
  rw [sysShmdt_referencias h]
  split_ifs
  · exact ⟨by omega, by omega⟩
  · exact ⟨by omega, by omega⟩

/-- **`sys_shmrm`**: nothing, or a mark set. -/
theorem sysShmrm_cases {id : DWord} (h : (m.sysShmrm id).2.stuck = false) :
    (m.sysShmrm id).2 = m
      ∨ ∃ i < shmLength, (m.sysShmrm id).2 =
        { m with
          shmMem := Function.update m.shmMem i { m.shmMem i with aBorrar := true } } := by
  unfold sysShmrm at h ⊢
  by_cases hid : 10 < id.toInt ∨ id.toInt < 0
  · rw [if_pos hid]
    exact Or.inl rfl
  · rw [if_neg hid] at h ⊢
    obtain ⟨hst, hi⟩ := (require_stuck _ _).mp h
    refine Or.inr ⟨id.toNat, hi, ?_⟩
    exact Mm.ext rfl rfl rfl rfl (h.trans hst.symm)

/-- A mark leaves the counts. -/
theorem CountsFit.sysShmrm (h : m.CountsFit) (id : DWord) : (m.sysShmrm id).2.CountsFit := by
  unfold Mm.sysShmrm
  split_ifs
  · exact h
  · intro i hi
    show -2 ^ 31 ≤ (Function.update m.shmMem id.toNat _ i).referencias
      ∧ (Function.update m.shmMem id.toNat _ i).referencias < 2 ^ 31
    rw [Function.update_apply]
    split_ifs with he
    · exact he ▸ h i hi
    · exact h i hi

end Mm

end ZeOS.Practica
