import ZeOS.Practica.Tables

/-!
# When `access_ok` is right

`access_ok` compares the pages of the two ends of a block and then looks
for a frame behind each page of the block. It should thereby accept only
blocks of user memory the current process has mapped. It does not: the
`return 1` at the end of its last case stands outside the test of the range,
so that a block out of range is accepted unseen, the shortcut for writes
lets one page too many through, the loop misses the last page of a block
that starts inside a page and is a whole number of pages long, and the test
of the ends misses a sum that wraps within one page.

What is proved here is which blocks that are accepted the process may access,
exactly.
-/

namespace ZeOS.Practica

/-- The first page a block may start in. -/
def firstPage : AccessType → ℕ
  | .verifyRead => userFirstPage
  | .verifyWrite => pagLogInitData

/-- **What an answer of `access_ok` promises**: the block does not wrap, and
each of its bytes is in a page of user memory that is mapped, not a code page
if the block is to be written. -/
structure Accessible (pt : PageTable) (type : AccessType) (addr size : DWord) : Prop where
  no_wrap : addr.toNat + size.toNat < 2 ^ 32
  pages : ∀ i < size.toNat,
    userFirstPage ≤ (addr.toNat + i) / pageSize ∧ (addr.toNat + i) / pageSize < totalPages
      ∧ (pt ((addr.toNat + i) / pageSize)).present = true
      ∧ (type = .verifyWrite → ¬ ((addr.toNat + i) / pageSize < pagLogInitData))

/-- Whether `access_ok` reaches its loop: the range test passes, and the
shortcut for writes does not apply. -/
def Ranged (type : AccessType) (addr size : DWord) : Prop :=
  userFirstPage ≤ pageOf addr ∧ pageOf (addr + size) < totalPages
    ∧ ¬ (type = .verifyWrite ∧ pagLogInitData ≤ pageOf addr
      ∧ pageOf (addr + size) ≤ pagLogInitShared)

/-- The pages the loop of `access_ok` looks at. -/
def Walked (type : AccessType) (addr size : DWord) (p : ℕ) : Prop :=
  Ranged type addr size ∧ pageOf addr ≤ p
    ∧ p < pageOf (addr + size) + if size.toNat % pageSize ≠ 0 then 1 else 0

/-- The pages of a block that no test of `access_ok` looks at: all of them
where it does not reach its loop, and else the last one, if the block starts
inside a page and is a whole number of pages long. -/
def Overlooked (type : AccessType) (addr size : DWord) (p : ℕ) : Prop :=
  (pageOf addr ≤ p ∧ p ≤ (addr.toNat + size.toNat - 1) / pageSize)
    ∧ (¬ Ranged type addr size
      ∨ p = (addr.toNat + size.toNat - 1) / pageSize ∧ size.toNat % pageSize = 0
        ∧ addr.toNat % pageSize ≠ 0)

/-- **What must hold of a block besides what `access_ok` looks at**: it does
not wrap, starts and ends in pages open to such an access, and the pages that
are not looked at are mapped. -/
structure Inside (pt : PageTable) (type : AccessType) (addr size : DWord) : Prop where
  no_wrap : addr.toNat + size.toNat < 2 ^ 32
  first : firstPage type ≤ pageOf addr
  last : (addr.toNat + size.toNat - 1) / pageSize < totalPages
  overlooked : ∀ p, Overlooked type addr size p → (pt p).present = true

theorem pageOf_eq (addr : DWord) : pageOf addr = addr.toNat / pageSize := by
  rw [pageOf, BitVec.toNat_ushiftRight, Nat.shiftRight_eq_div_pow]

/-- The end of a block that does not wrap. -/
theorem pageOf_add {addr size : DWord} (h : addr.toNat + size.toNat < 2 ^ 32) :
    pageOf (addr + size) = (addr.toNat + size.toNat) / pageSize := by
  rw [pageOf_eq, BitVec.toNat_add, Nat.mod_eq_of_lt h]

/-- A page between the ends of a block has a byte of it. -/
theorem exists_byte {addr : DWord} {n p : ℕ} (hn : 0 < n) (h₁ : pageOf addr ≤ p)
    (h₂ : p * pageSize < addr.toNat + n) : ∃ i < n, (addr.toNat + i) / pageSize = p := by
  rw [pageOf_eq] at h₁
  simp only [pageSize] at h₁ h₂ ⊢
  rcases Nat.lt_or_ge (p * 4096) addr.toNat with hb | hb
  · exact ⟨0, hn, by omega⟩
  · exact ⟨p * 4096 - addr.toNat, by omega, by omega⟩

theorem allHaveFrame_iff {pt : PageTable} {addrIni n : ℕ} :
    allHaveFrame pt addrIni n = true
      ↔ ∀ p, addrIni ≤ p → p < addrIni + n → getFrame pt p ≠ 0 := by
  rw [allHaveFrame, List.all_eq_true]
  constructor
  · intro h p h₁ h₂
    have hp := h (p - addrIni) (List.mem_range.mpr (by omega))
    rwa [Nat.add_sub_cancel' h₁, decide_eq_true_iff] at hp
  · intro h i hi
    rw [List.mem_range] at hi
    exact decide_eq_true (h (addrIni + i) (by omega) (by omega))

/-- **What `access_ok` tests.** -/
theorem accessOk_iff {pt : PageTable} {type : AccessType} {addr size : DWord} :
    accessOk pt type addr size = true
      ↔ pageOf addr ≤ pageOf (addr + size) ∧ ∀ p, Walked type addr size p → getFrame pt p ≠ 0 := by
  set ini := pageOf addr with hini
  set fin := pageOf (addr + size) with hfin
  set extra := (if size.toNat % pageSize ≠ 0 then 1 else 0) with hextra
  have hwalk : ini ≤ fin → Ranged type addr size →
      ((∀ p, Walked type addr size p → getFrame pt p ≠ 0)
        ↔ allHaveFrame pt ini (fin - ini + extra) = true) := by
    intro hle hr
    rw [allHaveFrame_iff]
    refine forall_congr' fun p => ⟨fun h h₁ h₂ => h ⟨hr, h₁, ?_⟩, fun h hw => h hw.2.1 ?_⟩
    · rw [← hfin, ← hextra]
      omega
    · have hlt := hw.2.2
      rw [← hfin, ← hextra] at hlt
      omega
  have hskip : ¬ Ranged type addr size → ∀ p, Walked type addr size p → getFrame pt p ≠ 0 :=
    fun hr p hw => absurd hw.1 hr
  unfold accessOk
  simp only [← hini, ← hfin, ← hextra]
  by_cases hlt : fin < ini
  · rw [if_pos hlt]
    exact iff_of_false Bool.false_ne_true (fun h => Nat.not_le.mpr hlt h.1)
  rw [if_neg hlt, and_iff_right (Nat.not_lt.mp hlt)]
  have hle := Nat.not_lt.mp hlt
  -- one case for each way to the answer
  cases type with
  | verifyRead =>
    dsimp only
    by_cases hr : userFirstPage ≤ ini ∧ fin < totalPages
    · rw [if_pos hr, hwalk hle ⟨hr.1, hr.2, fun h => absurd h.1 (by decide)⟩]
    · rw [if_neg hr]
      exact iff_of_true rfl (hskip fun h => hr ⟨h.1, h.2.1⟩)
  | verifyWrite =>
    dsimp only
    by_cases hshort : userFirstPage + numPagCode ≤ ini
        ∧ fin ≤ userFirstPage + numPagCode + numPagData
    · rw [if_pos hshort]
      exact iff_of_true rfl (hskip fun h => h.2.2 ⟨rfl, hshort⟩)
    rw [if_neg hshort]
    have hranged : userFirstPage ≤ ini ∧ fin < totalPages → Ranged .verifyWrite addr size :=
      fun h => ⟨h.1, h.2, fun h => hshort h.2⟩
    by_cases hshm : userFirstPage + numPagCode + numPagData < ini ∧ fin < totalPages
    · rw [if_pos hshm, hwalk hle (hranged ⟨le_trans (by decide) hshm.1.le, hshm.2⟩)]
    rw [if_neg hshm]
    by_cases hr : userFirstPage ≤ ini ∧ fin < totalPages
    · rw [if_pos hr, hwalk hle (hranged hr)]
    · rw [if_neg hr]
      exact iff_of_true rfl (hskip fun h => hr ⟨h.1, h.2.1⟩)

/-- A page of a block that does not wrap is looked at or overlooked. -/
theorem walked_of_not_overlooked {type : AccessType} {addr size : DWord} {p : ℕ}
    (hwrap : addr.toNat + size.toNat < 2 ^ 32) (h₁ : pageOf addr ≤ p)
    (h₂ : p ≤ (addr.toNat + size.toNat - 1) / pageSize) (h : ¬ Overlooked type addr size p) :
    Walked type addr size p := by
  have hranged : Ranged type addr size := by
    by_contra hc
    exact h ⟨⟨h₁, h₂⟩, Or.inl hc⟩
  have hlast : p = (addr.toNat + size.toNat - 1) / pageSize → size.toNat % pageSize = 0 →
      addr.toNat % pageSize = 0 := by
    intro he hz
    by_contra hc
    exact h ⟨⟨h₁, h₂⟩, Or.inr ⟨he, hz, hc⟩⟩
  have huser := hranged.1
  have hpage := pageOf_eq addr
  refine ⟨hranged, h₁, ?_⟩
  rw [pageOf_add hwrap]
  simp only [pageSize, userFirstPage] at hlast hpage huser h₂ ⊢
  split_ifs <;> omega

/-- In the table of a process the pages with a frame are the mapped ones,
from the first user page on. -/
theorem Mapped.present_iff {M : Machine} {a : Schedule} {m : Mm} (h : Mapped M a m) {s : Slot}
    (hs : a.Live s) {p : ℕ} (h₁ : userFirstPage ≤ p) (h₂ : p < totalPages) :
    (m.pagusrTable s p).present = true ↔ getFrame (m.pagusrTable s) p ≠ 0 := by
  show _ ↔ (m.pagusrTable s p).frame ≠ 0
  rcases (a.live_iff_user s).mp hs with hs | rfl
  · have hu := h.user_table s hs
    rcases Nat.lt_or_ge p pagLogInitData with hc | hc
    · obtain ⟨hpres, -, hf⟩ := hu.code p h₁ hc
      refine iff_of_true hpres ?_
      rw [hf]
      unfold codeFrame
      omega
    rcases Nat.lt_or_ge p pagLogInitShared with hd | hd
    · obtain ⟨hpres, -, hf⟩ := hu.data p hc hd
      exact iff_of_true hpres (fun h0 => hf (h0 ▸ fixed_zero))
    rcases h.shared s p hd h₂ with ⟨hpres, h0⟩ | ⟨hpres, -, -, hf⟩
    · rw [hpres, h0]
      exact iff_of_false Bool.false_ne_true (fun h => h rfl)
    · have hb := hf.bounds.1
      exact iff_of_true hpres (by omega)
  · rw [h.idle_table, initTablePages_of_ge M h₁]
    exact iff_of_false Bool.false_ne_true (fun h => h rfl)

/-- **A block that is accepted is one the process may access exactly if it is
empty or lies inside the user's memory**, in every reachable state. -/
theorem accessible_iff {M : Machine} {k : Kernel} (h : Reachable M k) {type : AccessType}
    {addr size : DWord} (hok : accessOk k.currentPt type addr size = true) :
    Accessible k.currentPt type addr size ↔ size = 0 ∨ Inside k.currentPt type addr size := by
  obtain ⟨a, hf, hm⟩ := h.mapped
  have hpres : ∀ p, userFirstPage ≤ p → p < totalPages →
      ((k.currentPt p).present = true ↔ getFrame k.currentPt p ≠ 0) := by
    rw [Kernel.currentPt_eq hf.threads]
    exact fun p => hm.present_iff a.live_current
  have hpage := pageOf_eq addr
  constructor
  · rintro ⟨hwrap, hpages⟩
    by_cases hsize : size = 0
    · exact Or.inl hsize
    have hpos : 0 < size.toNat := by
      refine Nat.pos_of_ne_zero (fun h0 => hsize (BitVec.eq_of_toNat_eq ?_))
      rw [h0]
      rfl
    obtain ⟨hfirst, -, -, hcode⟩ := hpages 0 hpos
    obtain ⟨-, hlast, -, -⟩ := hpages (size.toNat - 1) (by omega)
    rw [Nat.add_zero, ← hpage] at hfirst hcode
    refine Or.inr ⟨hwrap, ?_, ?_, fun p hp => ?_⟩
    · cases type with
      | verifyRead => exact hfirst
      | verifyWrite => exact Nat.not_lt.mp (hcode rfl)
    · rwa [Nat.add_sub_assoc hpos]
    · obtain ⟨⟨h₁, h₂⟩, -⟩ := hp
      obtain ⟨i, hi, hp⟩ : ∃ i < size.toNat, (addr.toNat + i) / pageSize = p := by
        refine exists_byte hpos h₁ ?_
        simp only [pageSize] at h₂ ⊢
        omega
      rw [← hp]
      exact (hpages i hi).2.2.1
  · obtain ⟨-, hframes⟩ := accessOk_iff.mp hok
    rintro (rfl | hin)
    · exact ⟨addr.isLt, fun i hi => absurd hi (Nat.not_lt_zero i)⟩
    refine ⟨hin.no_wrap, fun i hi => ?_⟩
    have hlow : pageOf addr ≤ (addr.toNat + i) / pageSize := by
      rw [hpage]
      exact Nat.div_le_div_right (Nat.le_add_right _ _)
    have hhigh : (addr.toNat + i) / pageSize ≤ (addr.toNat + size.toNat - 1) / pageSize :=
      Nat.div_le_div_right (by omega)
    have huser : userFirstPage ≤ (addr.toNat + i) / pageSize := by
      refine le_trans ?_ (hin.first.trans hlow)
      cases type <;> decide
    have hlt := hhigh.trans_lt hin.last
    refine ⟨huser, hlt, ?_, fun hwrite => ?_⟩
    · by_cases hp : Overlooked type addr size ((addr.toNat + i) / pageSize)
      · exact hin.overlooked _ hp
      · exact (hpres _ huser hlt).mpr
          (hframes _ (walked_of_not_overlooked hin.no_wrap hlow hhigh hp))
    · subst hwrite
      exact Nat.not_lt.mpr (hin.first.trans hlow)

/-- **`access_ok` opens the kernel's memory**: in the booted machine a block
of the kernel's image is accepted, for reading and for writing. -/
theorem accessOk_not_sound :
    ∃ k, Reachable Machine.sample k ∧
      ∀ type, accessOk k.currentPt type 0x10000 28 = true
        ∧ ¬ Accessible k.currentPt type 0x10000 28 := by
  refine ⟨Machine.sample.boot, ⟨[], Run.nil _⟩, fun type => ⟨?_, fun h => ?_⟩⟩
  · refine accessOk_iff.mpr ⟨by decide, fun p hw => absurd hw.1.1 (by decide)⟩
  · exact absurd (h.pages 0 (by decide)).1 (by decide)

end ZeOS.Practica
