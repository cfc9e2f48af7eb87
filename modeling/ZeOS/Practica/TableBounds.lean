import ZeOS.Practica.Entry

/-!
# Table bounds against hostile arguments

Every register a user program can load reaches `system_call_handler`. Of the
2^32 numbers and arguments the tests let through what the tables have, with
three exceptions: the number `MAX_SYSCALL`, which the handler compares with
`jg`; the segment 10, which `sys_shmrm` compares with `>`; and any page past
the table, which `sys_shmat` does not compare at all.
-/

namespace ZeOS.Practica

/-! ## Pages of an address -/

/-- The signed shift of `sys_shmat` agrees with the unsigned one where either
stays in the table: a negative index is past it. -/
theorem sshiftRight_lt_iff (addr : DWord) :
    (addr.sshiftRight 12).toNat < totalPages ↔ pageOf addr < totalPages := by
  rw [pageOf_eq]
  cases hmsb : addr.msb with
  | false =>
    rw [BitVec.sshiftRight_eq_of_msb_false hmsb, BitVec.toNat_ushiftRight,
      Nat.shiftRight_eq_div_pow]
  | true =>
    have hlarge := BitVec.msb_eq_true_iff_two_mul_ge.mp hmsb
    have hlt := addr.isLt
    rw [BitVec.sshiftRight_eq_of_msb_true hmsb, BitVec.toNat_not, BitVec.toNat_ushiftRight,
      BitVec.toNat_not, Nat.shiftRight_eq_div_pow]
    simp only [totalPages, pageSize]
    omega

/-- The page `sys_shmdt` masks out of its argument. -/
theorem shmdtPage_eq (addr : DWord) : Mm.shmdtPage addr = pageOf addr := by
  have hmask : (0xfffff000#32).toNat = (2 ^ 20 - 1) * 2 ^ 12 := by decide
  rw [Mm.shmdtPage, pageOf, BitVec.toNat_and, hmask, show pageSize = 2 ^ 12 from rfl,
    ← Nat.shiftRight_eq_div_pow, Nat.shiftRight_and_distrib, Nat.shiftRight_eq_div_pow _ 12,
    Nat.shiftRight_eq_div_pow _ 12, Nat.mul_div_cancel _ (by decide),
    Nat.and_two_pow_sub_one_eq_mod, BitVec.toNat_ushiftRight, Nat.shiftRight_eq_div_pow]
  exact Nat.mod_eq_of_lt (by have := addr.isLt; omega)

/-! ## The calls on segments -/

namespace Mm

variable {m : Mm} {s : Slot} {id addr : DWord}

/-- **`sys_shmat` stays in its tables** exactly when a call that passes its
tests names a page of the table. -/
theorem shmatIndices_inBounds :
    (∀ i ∈ m.shmatIndices s id addr, i.InBounds)
      ↔ (ShmatAccepts id addr → pageOf addr < totalPages) := by
  unfold shmatIndices
  by_cases halign : addr &&& 0xfff#32 ≠ 0
  · rw [if_pos halign]
    exact iff_of_true (by simp) (fun h => absurd h.1 halign)
  rw [if_neg halign]
  by_cases hid : id.toInt < 0 ∨ (shmLength : ℤ) ≤ id.toInt
  · rw [if_pos hid]
    refine iff_of_true (by simp) (fun h => ?_)
    have := h.2
    omega
  rw [if_neg hid]
  have hacc : ShmatAccepts id addr := ⟨not_not.mp halign, by omega, by omega⟩
  have hi : id.toNat < shmLength := hacc.id_lt
  rw [← sshiftRight_lt_iff]
  dsimp only
  generalize (addr.sshiftRight 12).toNat = access
  constructor
  · -- the page asked for is looked up first
    intro h _
    split at h
    · split at h <;> exact h (.pageTable access) (by simp)
    · exact h (.pageTable access) (by simp)
  · intro h
    have hlt := h hacc
    split
    · split
      · rename_i page hfind
        obtain ⟨-, hpage, -⟩ := findFreePage_eq_some hfind
        intro i hmem
        simp only [List.cons_append, List.mem_cons, List.mem_append, List.mem_map,
          List.mem_range'_1, List.not_mem_nil, or_false] at hmem
        rcases hmem with rfl | ⟨p, hp, rfl⟩ | rfl | rfl | rfl
        · exact hlt
        · exact (show p < totalPages by omega)
        · exact hi
        · exact hpage
        · exact hi
      · intro i hmem
        simp only [List.mem_cons, List.mem_map, List.mem_range'_1] at hmem
        rcases hmem with rfl | ⟨p, hp, rfl⟩
        · exact hlt
        · exact (show p < totalPages by omega)
    · intro i hmem
      simp only [List.mem_cons, List.not_mem_nil, or_false] at hmem
      rcases hmem with rfl | rfl | rfl | rfl
      · exact hlt
      · exact hi
      · exact hi
      · exact hlt

/-- **`sys_shmdt` stays in its tables.** -/
theorem shmdtIndices_inBounds : ∀ i ∈ m.shmdtIndices s addr, i.InBounds := by
  unfold shmdtIndices
  dsimp only
  split_ifs with hlt hpres
  · simp
  · simpa using (show TableIndex.InBounds (.pageTable _) from Nat.not_le.mp hlt)
  · have hpage := Nat.not_le.mp hlt
    intro i hmem
    rw [List.mem_append] at hmem
    rcases hmem with hmem | hmem
    · simp only [List.mem_cons, List.not_mem_nil, or_false, or_self] at hmem
      exact hmem ▸ hpage
    · split at hmem
      · obtain ⟨j, hj, rfl⟩ := List.mem_map.mp hmem
        exact List.mem_range.mp hj
      · rename_i j hfind
        have hj := List.mem_range.mp (List.mem_of_find?_eq_some hfind)
        rw [List.mem_append] at hmem
        rcases hmem with hmem | hmem
        · obtain ⟨l, hl, rfl⟩ := List.mem_map.mp hmem
          exact lt_of_lt_of_le (List.mem_range.mp hl) hj
        · split_ifs at hmem
          · exact List.mem_singleton.mp hmem ▸ hj
          · simp only [List.mem_cons, List.not_mem_nil, or_false] at hmem
            rcases hmem with rfl | rfl
            · exact hj
            · exact hpage

/-- **`sys_shmrm` stays in its table** for every segment but 10. -/
theorem shmrmIndices_inBounds :
    (∀ i ∈ shmrmIndices id, i.InBounds) ↔ id ≠ 10#32 := by
  have hcond := BitVec.toInt_eq_toNat_cond id
  have hten : id = 10#32 ↔ id.toNat = 10 := by
    rw [← BitVec.toNat_inj]
    rfl
  unfold shmrmIndices
  rw [ne_eq, hten]
  split_ifs with hid
  · refine iff_of_true (by simp) (fun h => ?_)
    rw [h] at hcond
    simp at hcond
    omega
  · simp only [List.mem_singleton, forall_eq]
    show id.toNat < shmLength ↔ _
    simp only [shmLength]
    split_ifs at hcond <;> omega

/-- A call of `sys_shmat` that fails changes nothing. -/
theorem sysShmat_of_neg (hpage : ShmatAccepts id addr → pageOf addr < totalPages)
    (h : (m.sysShmat s id addr).1 < 0) : (m.sysShmat s id addr).2 = m := by
  by_cases hacc : ShmatAccepts id addr
  · rw [sysShmat_of_accepts hacc ((sshiftRight_lt_iff addr).mpr (hpage hacc))] at h ⊢
    cases hfind : findFreePage (m.pagusrTable s) (addr.sshiftRight 12).toNat with
    | none => rfl
    | some page =>
      rw [hfind] at h
      exact absurd h (Int.not_lt.mpr (Int.natCast_nonneg _))
  · exact (sysShmat_of_not_accepts hacc).2

/-- A call of `sys_shmdt` that fails changes nothing. -/
theorem sysShmdt_of_neg {cr3 : Slot} (h : (m.sysShmdt cr3 s addr).1 < 0) :
    (m.sysShmdt cr3 s addr).2 = m := by
  unfold sysShmdt at h ⊢
  dsimp only at h ⊢
  split_ifs at h ⊢
  · rfl
  · rfl
  · split at h
    · rfl
    · split_ifs at h <;> exact absurd h (by simp only; omega)

/-- A page past the table is refused by `sys_shmdt`. -/
theorem sysShmdt_refused {cr3 : Slot} (h : totalPages ≤ pageOf addr) :
    (m.sysShmdt cr3 s addr).1 < 0 := by
  rw [← shmdtPage_eq, shmdtPage] at h
  unfold sysShmdt
  dsimp only
  rw [if_pos h]
  exact (by decide : -eCANCELED < 0)

/-- A call of `sys_shmrm` that fails changes nothing. -/
theorem sysShmrm_of_neg (h : (m.sysShmrm id).1 < 0) : (m.sysShmrm id).2 = m := by
  unfold sysShmrm at h ⊢
  split_ifs at h ⊢
  · rfl
  · exact absurd h (by simp only; omega)

theorem sysShmrm_refused (h : id.toInt < 0 ∨ (shmLength : ℤ) ≤ id.toInt) (hten : id ≠ 10#32) :
    (m.sysShmrm id).1 < 0 := by
  have hne : id.toInt ≠ 10 := fun he => hten (BitVec.toInt_inj.mp (he.trans (by decide)))
  unfold sysShmrm
  rw [if_pos (by push_cast at h; omega)]
  exact (by decide : -eINVAL < 0)

end Mm

/-! ## The handler -/

namespace Registers

/-- A number of the table and, for the calls on segments, a segment and a
page of theirs. -/
def InRange (r : Registers) : Prop :=
  (0 ≤ r.eax.toInt ∧ r.eax.toInt < maxSyscall)
    ∧ (r.eax = 24#32 → (0 ≤ r.ebx.toInt ∧ r.ebx.toInt < shmLength) ∧ pageOf r.ecx < totalPages)
    ∧ (r.eax = 25#32 → pageOf r.ebx < totalPages)
    ∧ (r.eax = 26#32 → 0 ≤ r.ebx.toInt ∧ r.ebx.toInt < shmLength)

/-- A call of `sys_shmat`, `sys_shmdt` or `sys_shmrm`. -/
def OnSegment (r : Registers) : Prop := r.eax = 24#32 ∨ r.eax = 25#32 ∨ r.eax = 26#32

/-- **The arguments the tests are right about**: the number is not
`MAX_SYSCALL`, a `sys_shmat` that passes its tests names a page of the table,
and the segment of a `sys_shmrm` is not 10. -/
def Caught (r : Registers) : Prop :=
  r.eax ≠ 36#32
    ∧ (r.eax = 24#32 → Mm.ShmatAccepts r.ebx r.ecx → pageOf r.ecx < totalPages)
    ∧ (r.eax = 26#32 → r.ebx ≠ 10#32)

end Registers

namespace Kernel

/-- **A call with these registers stays in its tables**: every entry looked
up exists; a number out of the table gives `-ENOSYS`; and what is out of
range, or fails in a call on a segment, gives a negative value and leaves the
state as the handler found it. -/
structure TableBounds (k : Kernel) (ebp : DWord) (r : Registers) : Prop where
  inBounds : ∀ i ∈ k.entered.handlerIndices r, i.InBounds
  number : ¬ (0 ≤ r.eax.toInt ∧ r.eax.toInt < maxSyscall) →
    (k.systemCallHandler ebp r).1 = -eNOSYS
  refused : ¬ r.InRange ∨ r.OnSegment ∧ (k.systemCallHandler ebp r).1 < 0 →
    (k.systemCallHandler ebp r).1 < 0 ∧ (k.systemCallHandler ebp r).2 = k.systemCall id

variable {k : Kernel} {ebp : DWord} {r : Registers}

/-- A number of the table leads to its entry. -/
theorem dispatchCall_of_lt (k : Kernel) (ebp : DWord) {c : SysCall}
    (hn : 0 ≤ r.eax.toInt ∧ r.eax.toInt < maxSyscall)
    (hc : sysCallTable[r.eax.toNat]? = some c) :
    k.dispatchCall ebp r = k.call ebp r c
      ∧ k.handlerIndices r = .sysCallTable r.eax.toNat :: k.callIndices r c := by
  rw [dispatchCall, handlerIndices, if_neg (by omega), if_neg (by omega), if_neg (by omega),
    if_neg (by omega), hc]
  exact ⟨rfl, rfl⟩

/-- Past the table the handler refuses, its own size apart. -/
theorem dispatchCall_of_not_lt (k : Kernel) (ebp : DWord)
    (hn : ¬ (0 ≤ r.eax.toInt ∧ r.eax.toInt < maxSyscall)) (hmax : r.eax ≠ 36#32) :
    k.dispatchCall ebp r = (-eNOSYS, k) ∧ k.handlerIndices r = [] := by
  have hne : r.eax.toInt ≠ maxSyscall :=
    fun he => hmax (BitVec.toInt_inj.mp (he.trans (by decide)))
  rw [dispatchCall, handlerIndices]
  by_cases hneg : r.eax.toInt < 0
  · rw [if_pos hneg, if_pos hneg]
    exact ⟨rfl, rfl⟩
  · have hlt : (maxSyscall : ℤ) < r.eax.toInt := by
      push_cast at hn hne ⊢
      omega
    rw [if_neg hneg, if_neg hneg, if_pos hlt, if_pos hlt]
    exact ⟨rfl, rfl⟩

/-- What the calls on segments do to the state. -/
theorem call_shmat (k : Kernel) : k.call ebp r .shmat
    = ((k.mm.sysShmat k.currentPtSlot r.ebx r.ecx).1,
      { k with mm := (k.mm.sysShmat k.currentPtSlot r.ebx r.ecx).2 }) := rfl

theorem call_shmdt (k : Kernel) : k.call ebp r .shmdt
    = ((k.mm.sysShmdt k.sched.cr3 k.currentPtSlot r.ebx).1,
      { k with mm := (k.mm.sysShmdt k.sched.cr3 k.currentPtSlot r.ebx).2 }) := rfl

theorem call_shmrm (k : Kernel) : k.call ebp r .shmrm
    = ((k.mm.sysShmrm r.ebx).1, { k with mm := (k.mm.sysShmrm r.ebx).2 }) := rfl

/-- A call that leaves the state it runs on alone. -/
theorem systemCallHandler_eq_id (h : (k.entered.dispatchCall ebp r).2 = k.entered) :
    (k.systemCallHandler ebp r).2 = k.systemCall id := by
  show ({ (k.entered.dispatchCall ebp r).2 with
    sched := (k.entered.dispatchCall ebp r).2.sched.leave } : Kernel) = _
  rw [h]
  rfl

/-- A number of the table: the call itself must stay in bounds, and a call on
segments must refuse what is out of range and leave the state alone when it
fails. -/
theorem TableBounds.of_call {c : SysCall} (hn : 0 ≤ r.eax.toInt ∧ r.eax.toInt < maxSyscall)
    (hc : sysCallTable[r.eax.toNat]? = some c)
    (hidx : ∀ i ∈ k.entered.callIndices r c, i.InBounds)
    (hneg : ¬ r.InRange → r.OnSegment ∧ (k.entered.call ebp r c).1 < 0)
    (hsame : r.OnSegment → (k.entered.call ebp r c).1 < 0 →
      (k.entered.call ebp r c).2 = k.entered) : k.TableBounds ebp r := by
  obtain ⟨hcall, hind⟩ := dispatchCall_of_lt k.entered ebp hn hc
  have hlt : r.eax.toNat < maxSyscall := (List.getElem?_eq_some_iff.mp hc).1
  have hval : (k.systemCallHandler ebp r).1 = (k.entered.call ebp r c).1 := by
    rw [systemCallHandler, hcall]
  refine ⟨fun i hi => ?_, fun h => absurd hn h, fun h => ?_⟩
  · rw [hind] at hi
    rcases List.mem_cons.mp hi with rfl | hi
    · exact hlt
    · exact hidx i hi
  · have hon : r.OnSegment ∧ (k.entered.call ebp r c).1 < 0 := by
      rcases h with h | ⟨hon, h⟩
      · exact hneg h
      · exact ⟨hon, hval ▸ h⟩
    refine ⟨hval ▸ hon.2, systemCallHandler_eq_id ?_⟩
    rw [hcall]
    exact hsame hon.1 hon.2

/-- A number past the table. -/
theorem TableBounds.of_not_lt (hn : ¬ (0 ≤ r.eax.toInt ∧ r.eax.toInt < maxSyscall))
    (hmax : r.eax ≠ 36#32) : k.TableBounds ebp r := by
  obtain ⟨hcall, hind⟩ := dispatchCall_of_not_lt k.entered ebp hn hmax
  have hval : (k.systemCallHandler ebp r).1 = -eNOSYS := by
    rw [systemCallHandler, hcall]
  refine ⟨fun i hi => ?_, fun _ => hval, fun _ => ⟨?_, systemCallHandler_eq_id ?_⟩⟩
  · rw [hind] at hi
    exact absurd hi List.not_mem_nil
  · rw [hval]
    decide
  · rw [hcall]

/-- Where the entries of the calls on segments are. -/
theorem sysCallTable_segment : ∀ n < maxSyscall,
    (sysCallTable[n]? = some .shmat → n = 24) ∧ (sysCallTable[n]? = some .shmdt → n = 25)
      ∧ (sysCallTable[n]? = some .shmrm → n = 26) := by
  decide

end Kernel

variable {k : Kernel} {ebp : DWord} {r : Registers}

/-- `sys_shmat` through the handler. -/
theorem tableBounds_shmat (hr : r.eax = 24#32)
    (hpage : Mm.ShmatAccepts r.ebx r.ecx → pageOf r.ecx < totalPages) : k.TableBounds ebp r := by
  have hn : 0 ≤ r.eax.toInt ∧ r.eax.toInt < maxSyscall := by
    rw [hr]
    decide
  refine .of_call (c := .shmat) hn (by rw [hr]; rfl) (Mm.shmatIndices_inBounds.mpr hpage)
    (fun hout => ⟨Or.inl hr, ?_⟩) (fun _ hneg => ?_)
  · refine (Mm.sysShmat_of_not_accepts fun hacc => hout ⟨hn, fun _ => ?_, ?_, ?_⟩).1
    · exact ⟨hacc.2, hpage hacc⟩
    · exact fun he => absurd (hr.symm.trans he) (by decide)
    · exact fun he => absurd (hr.symm.trans he) (by decide)
  · rw [Kernel.call_shmat] at hneg ⊢
    dsimp only at hneg ⊢
    rw [Mm.sysShmat_of_neg hpage hneg]

/-- `sys_shmdt` through the handler. -/
theorem tableBounds_shmdt (hr : r.eax = 25#32) : k.TableBounds ebp r := by
  have hn : 0 ≤ r.eax.toInt ∧ r.eax.toInt < maxSyscall := by
    rw [hr]
    decide
  refine .of_call (c := .shmdt) hn (by rw [hr]; rfl) Mm.shmdtIndices_inBounds
    (fun hout => ⟨Or.inr (Or.inl hr), ?_⟩) (fun _ hneg => ?_)
  · refine Mm.sysShmdt_refused (Nat.not_lt.mp fun hlt => hout ⟨hn, ?_, fun _ => hlt, ?_⟩)
    · exact fun he => absurd (hr.symm.trans he) (by decide)
    · exact fun he => absurd (hr.symm.trans he) (by decide)
  · rw [Kernel.call_shmdt] at hneg ⊢
    dsimp only at hneg ⊢
    rw [Mm.sysShmdt_of_neg hneg]

/-- `sys_shmrm` through the handler. -/
theorem tableBounds_shmrm (hr : r.eax = 26#32) (hten : r.ebx ≠ 10#32) : k.TableBounds ebp r := by
  have hn : 0 ≤ r.eax.toInt ∧ r.eax.toInt < maxSyscall := by
    rw [hr]
    decide
  refine .of_call (c := .shmrm) hn (by rw [hr]; rfl) (Mm.shmrmIndices_inBounds.mpr hten)
    (fun hout => ⟨Or.inr (Or.inr hr), ?_⟩) (fun _ hneg => ?_)
  · refine Mm.sysShmrm_refused ?_ hten
    by_contra hc
    push Not at hc
    refine hout ⟨hn, ?_, ?_, fun _ => hc⟩
    · exact fun he => absurd (hr.symm.trans he) (by decide)
    · exact fun he => absurd (hr.symm.trans he) (by decide)
  · rw [Kernel.call_shmrm] at hneg ⊢
    dsimp only at hneg ⊢
    rw [Mm.sysShmrm_of_neg hneg]

/-- Any other number of the table. -/
theorem tableBounds_other (hn : 0 ≤ r.eax.toInt ∧ r.eax.toInt < maxSyscall)
    (hseg : ¬ r.OnSegment) : k.TableBounds ebp r := by
  have hlt : r.eax.toNat < maxSyscall := by
    have hint := hn.2
    rw [toInt_eq_toNat_of_nonneg hn.1] at hint
    exact Int.ofNat_lt.mp hint
  have hin : r.InRange := ⟨hn, fun he => absurd (Or.inl he) hseg,
    fun he => absurd (Or.inr (Or.inl he)) hseg, fun he => absurd (Or.inr (Or.inr he)) hseg⟩
  have hc : sysCallTable[r.eax.toNat]? = some sysCallTable[r.eax.toNat] :=
    List.getElem?_eq_getElem hlt
  obtain ⟨h₁, h₂, h₃⟩ := Kernel.sysCallTable_segment r.eax.toNat hlt
  refine .of_call hn hc ?_ (fun hout => absurd hin hout) (fun hon => absurd hon hseg)
  rw [hc] at h₁ h₂ h₃
  generalize sysCallTable[r.eax.toNat] = c at h₁ h₂ h₃
  have hnum : ∀ n : ℕ, n < maxSyscall → r.eax.toNat = n → r.eax = BitVec.ofNat 32 n :=
    fun n hn' he => BitVec.eq_of_toNat_eq (by
      rw [he, BitVec.toNat_ofNat, Nat.mod_eq_of_lt (hn'.trans (by decide))])
  cases c with
  | shmat => exact absurd (Or.inl (hnum 24 (by decide) (h₁ rfl))) hseg
  | shmdt => exact absurd (Or.inr (Or.inl (hnum 25 (by decide) (h₂ rfl)))) hseg
  | shmrm => exact absurd (Or.inr (Or.inr (hnum 26 (by decide) (h₃ rfl)))) hseg
  | _ => exact fun i hi => absurd hi List.not_mem_nil

/-- **Table bounds.** In every state and for all registers, a call stays in
its tables exactly when its number and arguments are ones the tests are right
about. -/
theorem table_bounds_iff (k : Kernel) (ebp : DWord) (r : Registers) :
    k.TableBounds ebp r ↔ r.Caught := by
  constructor
  · intro h
    have hidx : ∀ {c : SysCall}, 0 ≤ r.eax.toInt ∧ r.eax.toInt < maxSyscall →
        sysCallTable[r.eax.toNat]? = some c → ∀ i ∈ k.entered.callIndices r c, i.InBounds := by
      intro c hn hc i hi
      refine h.inBounds i ?_
      rw [(Kernel.dispatchCall_of_lt k.entered ebp hn hc).2]
      exact List.mem_cons_of_mem _ hi
    refine ⟨fun he => ?_, fun he => ?_, fun he => ?_⟩
    · have hmem : .sysCallTable 36 ∈ k.entered.handlerIndices r := by
        rw [Kernel.handlerIndices, he]
        exact List.mem_cons_self
      exact absurd (show (36 : ℕ) < maxSyscall from h.inBounds _ hmem) (Nat.lt_irrefl 36)
    · exact Mm.shmatIndices_inBounds.mp
        (hidx (c := .shmat) (by rw [he]; decide) (by rw [he]; rfl))
    · exact Mm.shmrmIndices_inBounds.mp
        (hidx (c := .shmrm) (by rw [he]; decide) (by rw [he]; rfl))
  · rintro ⟨hmax, hshmat, hshmrm⟩
    by_cases hn : 0 ≤ r.eax.toInt ∧ r.eax.toInt < maxSyscall
    · by_cases hseg : r.OnSegment
      · rcases hseg with h24 | h25 | h26
        · exact tableBounds_shmat h24 (hshmat h24)
        · exact tableBounds_shmdt h25
        · exact tableBounds_shmrm h26 (hshmrm h26)
      · exact tableBounds_other hn hseg
    · exact .of_not_lt hn hmax

/-- **A call past the table**: number 36 is looked up in a table of 36. -/
theorem not_table_bounds_maxSyscall :
    ¬ Machine.sample.boot.TableBounds 0 ⟨36, 0, 0, 0⟩ := by
  intro h
  have hlt : (36 : ℕ) < maxSyscall := h.inBounds (.sysCallTable 36) List.mem_cons_self
  exact absurd hlt (Nat.lt_irrefl 36)

end ZeOS.Practica
