import ZeOS.Practica.AccessOk

/-!
# What `access_ok` turns away

The converse of `AccessOk`: a block of user memory that is mapped should be
accepted for reading, and what is accepted for writing should be accepted for
reading. The end of a block is computed as the address after its last byte.
Where that is the start of a page and the size is not a number of pages, the
loop looks at this page too, in which the block has no byte. The shortcut for
writes lets this page through unseen when it is the first one behind the data
pages, and the case for reads looks at it. And the shortcut takes the data
pages for mapped, which in the table of the idle task they are not.
-/

namespace ZeOS.Practica

/-- **`access_ok` accepts every legitimate block**: one whose bytes are all
in mapped pages of user memory for reading, and for reading what it accepts
for writing. -/
structure AcceptsLegitimate (pt : PageTable) (addr size : DWord) : Prop where
  read : Accessible pt .verifyRead addr size → accessOk pt .verifyRead addr size = true
  write : accessOk pt .verifyWrite addr size = true → accessOk pt .verifyRead addr size = true

/-- The block is mapped and ends at a page border, it is not a number of
pages long, and the page behind it has no frame. -/
def EndsUnmapped (pt : PageTable) (addr size : DWord) : Prop :=
  size.toNat % pageSize ≠ 0 ∧ (addr.toNat + size.toNat) % pageSize = 0
    ∧ (∀ p, pageOf addr ≤ p → p < (addr.toNat + size.toNat) / pageSize →
        userFirstPage ≤ p ∧ (pt p).present = true)
    ∧ (addr.toNat + size.toNat) / pageSize < totalPages
    ∧ getFrame pt ((addr.toNat + size.toNat) / pageSize) = 0

/-- The shortcut for writes applies, in the idle task, or to a block that is
not a number of pages long and reaches the page behind the data pages, which
has no frame. -/
def WritesUnread (k : Kernel) (addr size : DWord) : Prop :=
  pagLogInitData ≤ pageOf addr ∧ (addr.toNat + size.toNat) / pageSize ≤ pagLogInitShared
    ∧ (k.sched.current = k.sched.idleTask
      ∨ (addr.toNat + size.toNat) / pageSize = pagLogInitShared ∧ size.toNat % pageSize ≠ 0
        ∧ getFrame k.currentPt pagLogInitShared = 0)

section Block

variable {pt : PageTable} {addr size : DWord}

/-- **Reading, past the test of the ends.** -/
theorem accessOk_read_iff (hwrap : addr.toNat + size.toNat < 2 ^ 32) :
    accessOk pt .verifyRead addr size = true
      ↔ (userFirstPage ≤ pageOf addr → (addr.toNat + size.toNat) / pageSize < totalPages →
          ∀ p, pageOf addr ≤ p → p < (addr.toNat + size.toNat) / pageSize
              + (if size.toNat % pageSize ≠ 0 then 1 else 0) → getFrame pt p ≠ 0) := by
  have hle : pageOf addr ≤ (addr.toNat + size.toNat) / pageSize := by
    rw [pageOf_eq]
    exact Nat.div_le_div_right (Nat.le_add_right _ _)
  rw [accessOk_iff, pageOf_add hwrap, and_iff_right hle]
  constructor
  · intro h h₁ h₂ p h₃ h₄
    refine h p ⟨⟨h₁, ?_, fun hc => absurd hc.1 (by decide)⟩, h₃, ?_⟩
    · rwa [pageOf_add hwrap]
    · rwa [pageOf_add hwrap]
  · rintro h p ⟨⟨h₁, h₂, -⟩, h₃, h₄⟩
    rw [pageOf_add hwrap] at h₂ h₄
    exact h h₁ h₂ p h₃ h₄

/-- **A mapped block is turned away for reading exactly if it ends at a page
without a frame.** -/
theorem accepts_read_iff (hsize : 0 < size.toNat)
    (hpres : ∀ p, userFirstPage ≤ p → p < totalPages →
      ((pt p).present = true ↔ getFrame pt p ≠ 0)) :
    (Accessible pt .verifyRead addr size → accessOk pt .verifyRead addr size = true)
      ↔ ¬ EndsUnmapped pt addr size := by
  have hpage := pageOf_eq addr
  constructor
  · rintro hok ⟨hrest, hborder, hmapped, hlt, hzero⟩
    have hwrap : addr.toNat + size.toNat < 2 ^ 32 := by
      simp only [pageSize, totalPages] at hlt
      omega
    have hlow : pageOf addr < (addr.toNat + size.toNat) / pageSize := by
      simp only [pageSize] at hborder hpage ⊢
      omega
    have hacc : Accessible pt .verifyRead addr size := by
      refine ⟨hwrap, fun i hi => ?_⟩
      have h₁ : pageOf addr ≤ (addr.toNat + i) / pageSize := by
        rw [hpage]
        exact Nat.div_le_div_right (Nat.le_add_right _ _)
      have h₂ : (addr.toNat + i) / pageSize < (addr.toNat + size.toNat) / pageSize := by
        simp only [pageSize] at hborder ⊢
        omega
      obtain ⟨hfirst, hp⟩ := hmapped _ h₁ h₂
      exact ⟨hfirst, h₂.trans hlt, hp, fun hc => absurd hc (by decide)⟩
    have hframes := (accessOk_read_iff hwrap).mp (hok hacc) (hmapped _ le_rfl hlow).1 hlt
    rw [if_pos hrest] at hframes
    exact hframes _ hlow.le (Nat.lt_succ_self _) hzero
  · intro hends hacc
    rw [accessOk_read_iff hacc.no_wrap]
    intro h₁ h₂ p h₃ h₄
    have hbytes : ∀ q, pageOf addr ≤ q → q * pageSize < addr.toNat + size.toNat →
        userFirstPage ≤ q ∧ q < totalPages ∧ (pt q).present = true := by
      intro q hq hlt
      obtain ⟨i, hi, rfl⟩ := exists_byte hsize hq hlt
      obtain ⟨hfirst, hlast, hp, -⟩ := hacc.pages i hi
      exact ⟨hfirst, hlast, hp⟩
    by_cases hbyte : p * pageSize < addr.toNat + size.toNat
    · obtain ⟨hfirst, hlast, hp⟩ := hbytes p h₃ hbyte
      exact (hpres p hfirst hlast).mp hp
    · -- the page behind the block
      have hrest : size.toNat % pageSize ≠ 0 := by
        intro hc
        rw [if_neg (not_not.mpr hc)] at h₄
        simp only [pageSize] at h₄ hbyte
        omega
      rw [if_pos hrest] at h₄
      have hp : p = (addr.toNat + size.toNat) / pageSize := by
        simp only [pageSize] at h₄ hbyte ⊢
        omega
      subst hp
      refine fun hzero => hends ⟨hrest, ?_, fun q hq hlt => ?_, h₂, hzero⟩
      · simp only [pageSize] at hbyte ⊢
        omega
      · have hq' : q * pageSize < addr.toNat + size.toNat := by
          simp only [pageSize] at hlt ⊢
          omega
        obtain ⟨hfirst, -, hp⟩ := hbytes q hq hq'
        exact ⟨hfirst, hp⟩

/-- The shortcut for writes accepts a block unseen. -/
theorem accessOk_write_of_shortcut (hwrap : addr.toNat + size.toNat < 2 ^ 32)
    (hstart : pagLogInitData ≤ pageOf addr)
    (hend : (addr.toNat + size.toNat) / pageSize ≤ pagLogInitShared) :
    accessOk pt .verifyWrite addr size = true := by
  refine accessOk_iff.mpr ⟨?_, fun p hw => absurd ⟨rfl, hstart, ?_⟩ hw.1.2.2⟩
  · rw [pageOf_add hwrap, pageOf_eq]
    exact Nat.div_le_div_right (Nat.le_add_right _ _)
  · rw [pageOf_add hwrap]
    exact hend

/-- Where it does not apply, the same pages are looked at for reading. -/
theorem accessOk_read_of_write (hwrap : addr.toNat + size.toNat < 2 ^ 32)
    (hshort : ¬ (pagLogInitData ≤ pageOf addr
      ∧ (addr.toNat + size.toNat) / pageSize ≤ pagLogInitShared))
    (hok : accessOk pt .verifyWrite addr size = true) :
    accessOk pt .verifyRead addr size = true := by
  have hsame : ∀ p, Walked .verifyRead addr size p ↔ Walked .verifyWrite addr size p := by
    intro p
    refine and_congr_left (fun _ => and_congr_right (fun _ => and_congr_right (fun _ => ?_)))
    rw [pageOf_add hwrap]
    exact iff_of_true (fun hc => absurd hc.1 (by decide)) (fun hc => hshort hc.2)
  rw [accessOk_iff] at hok ⊢
  exact ⟨hok.1, fun p hw => hok.2 p ((hsame p).mp hw)⟩

/-- Nor is there a difference for a block that ends where the addresses do. -/
theorem accessOk_read_of_write_top (htop : addr.toNat + size.toNat = 2 ^ 32)
    (hok : accessOk pt .verifyWrite addr size = true) :
    accessOk pt .verifyRead addr size = true := by
  have hend : pageOf (addr + size) = 0 := by
    rw [pageOf_eq, BitVec.toNat_add, htop]
    rfl
  have hle := (accessOk_iff.mp hok).1
  refine accessOk_iff.mpr ⟨hle, fun p hw => ?_⟩
  have hfirst := hw.1.1.trans hle
  rw [hend] at hfirst
  exact absurd hfirst (by decide)

end Block

/-- **What is accepted for writing is turned away for reading exactly if the
shortcut has let it through unread.** -/
theorem accepts_write_iff {M : Machine} {k : Kernel} {a : Schedule} (hf : k.Follows a)
    (hm : Mapped M a k.mm) {addr size : DWord} (hsize : 0 < size.toNat)
    (hwrap : addr.toNat + size.toNat ≤ 2 ^ 32) :
    (accessOk k.currentPt .verifyWrite addr size = true →
        accessOk k.currentPt .verifyRead addr size = true)
      ↔ ¬ WritesUnread k addr size := by
  have hpt := Kernel.currentPt_eq hf.threads
  have hpage := pageOf_eq addr
  rcases Nat.lt_or_eq_of_le hwrap with hlt | htop
  · by_cases hshort : pagLogInitData ≤ pageOf addr
      ∧ (addr.toNat + size.toNat) / pageSize ≤ pagLogInitShared
    · have hwrite : accessOk k.currentPt .verifyWrite addr size = true :=
        accessOk_write_of_shortcut hlt hshort.1 hshort.2
      have huser : userFirstPage ≤ pageOf addr := le_trans (by decide) hshort.1
      have hfin : (addr.toNat + size.toNat) / pageSize < totalPages :=
        hshort.2.trans_lt (by decide)
      rw [forall_prop_of_true hwrite, accessOk_read_iff hlt, forall_prop_of_true huser,
        forall_prop_of_true hfin, WritesUnread, and_iff_right hshort.1, and_iff_right hshort.2,
        hf.threads.current_eq, hf.threads.idle_eq]
      by_cases hidle : a.current = a.idle
      · -- the table of the idle task has no page of the block
        refine iff_of_false (fun hall => hall (pageOf addr) le_rfl ?_ ?_)
          (not_not.mpr (Or.inl hidle))
        · simp only [pageSize] at hpage ⊢
          split_ifs <;> omega
        · rw [hpt, hidle, hm.idle_table, getFrame, Mapped.initTablePages_of_ge M huser]
          rfl
      · have hdata : ∀ p, pagLogInitData ≤ p → p < pagLogInitShared →
            getFrame k.currentPt p ≠ 0 := by
          intro p h₁ h₂ h0
          obtain ⟨-, -, hfix⟩ := (hm.user_table _ (a.user_current hidle)).data p h₁ h₂
          rw [hpt] at h0
          replace h0 : (k.mm.pagusrTable a.current p).frame = 0 := h0
          exact hfix (h0 ▸ fixed_zero)
        rw [or_iff_right hidle]
        constructor
        · rintro hall ⟨hend, hrest, hzero⟩
          refine hall pagLogInitShared ?_ ?_ hzero
          · rw [← hend, hpage]
            exact Nat.div_le_div_right (Nat.le_add_right _ _)
          · rw [hend, if_pos hrest]
            exact Nat.lt_succ_self _
        · intro hnot p h₁ h₂
          rcases Nat.lt_or_ge p pagLogInitShared with hp | hp
          · exact hdata p (hshort.1.trans h₁) hp
          · -- only a block that is not a number of pages long comes so far
            have hfin' := hshort.2
            split_ifs at h₂ with hrest
            · have hend : (addr.toNat + size.toNat) / pageSize = pagLogInitShared := by omega
              have hp' : p = pagLogInitShared := by omega
              exact fun hzero => hnot ⟨hend, hrest, hp' ▸ hzero⟩
            · omega
    · exact iff_of_true (accessOk_read_of_write hlt hshort) (fun hc => hshort ⟨hc.1, hc.2.1⟩)
  · refine iff_of_true (accessOk_read_of_write_top htop) (fun hc => ?_)
    have hle := hc.2.1
    rw [htop] at hle
    exact absurd hle (by decide)

/-- **`access_ok` accepts every legitimate block, except where it looks at a
page behind the block or has not looked at all.** -/
theorem accessOk_complete_iff (M : Machine) (k : Kernel) (h : Reachable M k) (addr size : DWord)
    (hsize : 0 < size.toNat) (hwrap : addr.toNat + size.toNat ≤ 2 ^ 32) :
    AcceptsLegitimate k.currentPt addr size
      ↔ ¬ EndsUnmapped k.currentPt addr size ∧ ¬ WritesUnread k addr size := by
  obtain ⟨a, hf, hm⟩ := h.mapped
  have hpres : ∀ p, userFirstPage ≤ p → p < totalPages →
      ((k.currentPt p).present = true ↔ getFrame k.currentPt p ≠ 0) := by
    rw [Kernel.currentPt_eq hf.threads]
    exact fun p => hm.present_iff a.live_current
  rw [← accepts_read_iff hsize hpres, ← accepts_write_iff hf hm hsize hwrap]
  exact ⟨fun hall => ⟨hall.read, hall.write⟩, fun hall => ⟨hall.1, hall.2⟩⟩

/-- The booted process and a block of its first data page. -/
theorem accessOk_complete_iff_data :
    AcceptsLegitimate Machine.sample.boot.currentPt 0x108000#32 600#32 := by
  refine (accessOk_complete_iff Machine.sample _ ⟨[], Run.nil _⟩ 0x108000#32 600#32 (by decide)
    (by decide)).mpr ⟨fun hends => ?_, fun hwrites => ?_⟩
  · exact absurd hends.2.1 (by decide)
  · rcases hwrites.2.2 with hidle | ⟨hend, -⟩
    · have hbusy := (follows_boot Machine.sample).ne (by decide)
      exact hbusy hidle
    · exact absurd hend (by decide)

/-- **The last byte of the data**: it is mapped, and it may be written, but
it may not be read. -/
theorem not_accessOk_complete :
    Reachable Machine.sample Machine.sample.boot
      ∧ Accessible Machine.sample.boot.currentPt .verifyRead 0x11bfff#32 1#32
      ∧ accessOk Machine.sample.boot.currentPt .verifyWrite 0x11bfff#32 1#32 = true
      ∧ accessOk Machine.sample.boot.currentPt .verifyRead 0x11bfff#32 1#32 = false
      ∧ ¬ AcceptsLegitimate Machine.sample.boot.currentPt 0x11bfff#32 1#32 := by
  have hpt : Machine.sample.boot.currentPt = bootTable Machine.sample := by
    rw [Kernel.currentPt_eq (follows_boot Machine.sample).threads, boot_mm]
    rfl
  have hlast : (bootTable Machine.sample 283).present = true := by
    rw [bootTable, if_pos (by decide)]
  have hbehind : getFrame (bootTable Machine.sample) 284 = 0 := by
    rw [getFrame, bootTable, if_neg (by decide), Mapped.initTablePages_of_ge _ (by decide)]
    rfl
  have hacc : Accessible (bootTable Machine.sample) .verifyRead 0x11bfff#32 1#32 := by
    refine ⟨by decide, fun i hi => ?_⟩
    have hpage : ((0x11bfff#32).toNat + i) / pageSize = 283 := by
      replace hi : i < 1 := hi
      have hi : i = 0 := by omega
      rw [hi]
      decide
    rw [hpage]
    exact ⟨by decide, by decide, hlast, fun hc => absurd hc (by decide)⟩
  have hwrite : accessOk (bootTable Machine.sample) .verifyWrite 0x11bfff#32 1#32 = true :=
    accessOk_iff.mpr ⟨by decide, fun p hw => absurd ⟨rfl, by decide, by decide⟩ hw.1.2.2⟩
  have hread : accessOk (bootTable Machine.sample) .verifyRead 0x11bfff#32 1#32 = false := by
    refine Bool.eq_false_iff.mpr (fun hok => (accessOk_iff.mp hok).2 284 ?_ hbehind)
    exact ⟨⟨by decide, by decide, fun hc => absurd hc.1 (by decide)⟩, by decide, by decide⟩
  rw [hpt]
  refine ⟨⟨[], Run.nil _⟩, hacc, hwrite, hread, fun hall => ?_⟩
  have hok := hall.read hacc
  rw [hread] at hok
  exact absurd hok (by decide)

end ZeOS.Practica
