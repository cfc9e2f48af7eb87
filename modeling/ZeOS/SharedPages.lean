import Mathlib.Data.Fintype.Card

/-!
# Pages shared copy-on-write

Owners have pages and each page of each owner has a frame behind it. Owners
may share a frame, and a count is kept for each frame of how many do. A
frame is written to by one owner only, when it is nobody else's.

The moves of such a table are given by what they change and what they leave
alone: an owner is joined by a second one with the same pages, a page is
given a frame of its own, a page that is shared with nobody becomes
writable, an owner leaves. Each keeps the table sound, and seen through the
table no move but a write changes what an owner reads – an owner that joins
reads what the first one reads.
-/

/-- **A table of shared pages.** -/
structure SharedPages (P I F : Type*) where
  owners : Finset P
  frame : P → I → F
  writable : P → I → Bool
  count : F → ℕ

namespace SharedPages

variable {P I F : Type*} [DecidableEq P] [DecidableEq F] {t t' : SharedPages P I F}

/-- The owners with a frame behind a page. -/
def sharers (t : SharedPages P I F) (i : I) (f : F) : Finset P :=
  t.owners.filter (fun p => t.frame p i = f)

omit [DecidableEq P] in
theorem mem_sharers {p : P} {i : I} {f : F} :
    p ∈ t.sharers i f ↔ p ∈ t.owners ∧ t.frame p i = f := Finset.mem_filter

/-- **A table in order**: no frame is behind two pages, the counts are
right, and a page that may be written to is shared with nobody. -/
structure Sound (t : SharedPages P I F) : Prop where
  page_eq : ∀ p ∈ t.owners, ∀ q ∈ t.owners, ∀ i j, t.frame p i = t.frame q j → i = j
  count_eq : ∀ p ∈ t.owners, ∀ i, t.count (t.frame p i) = (t.sharers i (t.frame p i)).card
  alone : ∀ p ∈ t.owners, ∀ i, t.writable p i = true →
    ∀ q ∈ t.owners, t.frame q i = t.frame p i → q = p

namespace Sound

omit [DecidableEq P]

/-- A frame in use has a count. -/
theorem count_pos (h : t.Sound) {p : P} (hp : p ∈ t.owners) (i : I) :
    0 < t.count (t.frame p i) := by
  rw [h.count_eq p hp i, Finset.card_pos]
  exact ⟨p, mem_sharers.mpr ⟨hp, rfl⟩⟩

/-- A count is a number of owners. -/
theorem count_le (h : t.Sound) [Fintype P] {p : P} (hp : p ∈ t.owners) (i : I) :
    t.count (t.frame p i) ≤ Fintype.card P := by
  rw [h.count_eq p hp i]
  exact Finset.card_le_univ _

/-- A frame with count one has one owner. -/
theorem eq_of_count_one (h : t.Sound) {p q : P} {i j : I} (hp : p ∈ t.owners)
    (hq : q ∈ t.owners) (hcount : t.count (t.frame p i) = 1) (hf : t.frame q j = t.frame p i) :
    q = p := by
  obtain rfl := h.page_eq q hq p hp j i hf
  rw [h.count_eq p hp j] at hcount
  exact Finset.card_le_one.mp hcount.le q (mem_sharers.mpr ⟨hq, hf⟩) p
    (mem_sharers.mpr ⟨hp, rfl⟩)

/-- Nothing moved, but pages that are shared with nobody may have become
writable. -/
theorem congr (h : t.Sound) (howners : t'.owners = t.owners)
    (hframe : ∀ p ∈ t.owners, ∀ i, t'.frame p i = t.frame p i)
    (hcount : ∀ p ∈ t.owners, ∀ i, t'.count (t.frame p i) = t.count (t.frame p i))
    (hwrite : ∀ p ∈ t.owners, ∀ i, t'.writable p i = true →
      t.writable p i = true ∨ t.count (t.frame p i) = 1) : t'.Sound where
  page_eq p hp q hq i j he := by
    rw [howners] at hp hq
    rw [hframe p hp, hframe q hq] at he
    exact h.page_eq p hp q hq i j he
  count_eq p hp i := by
    rw [howners] at hp
    have hsharers : t'.sharers i (t.frame p i) = t.sharers i (t.frame p i) := by
      rw [sharers, howners]
      exact Finset.filter_congr (fun q hq => by rw [hframe q hq])
    rw [hframe p hp, hcount p hp, hsharers]
    exact h.count_eq p hp i
  alone p hp i hw q hq he := by
    rw [howners] at hp hq
    rw [hframe p hp, hframe q hq] at he
    rcases hwrite p hp i hw with hw | hone
    · exact h.alone p hp i hw q hq he
    · exact h.eq_of_count_one hp hq hone he

end Sound

/-! ## An owner joins -/

/-- **A new owner with the pages of another one**, which neither may write
to. -/
structure Joins (t t' : SharedPages P I F) (p c : P) : Prop where
  parent : p ∈ t.owners
  child : c ∉ t.owners
  owners : t'.owners = insert c t.owners
  frame : ∀ q ∈ t.owners, ∀ i, t'.frame q i = t.frame q i
  frame_child : ∀ i, t'.frame c i = t.frame p i
  count : ∀ q ∈ t.owners, ∀ i, t'.count (t.frame q i)
    = t.count (t.frame q i) + if t.frame p i = t.frame q i then 1 else 0
  writable : ∀ q ∈ t.owners, ∀ i, t'.writable q i = true → t.writable q i = true ∧ q ≠ p
  writable_child : ∀ i, t'.writable c i = false

namespace Joins

variable {p c : P}

/-- Every page of the new table is one of the old table. -/
theorem exists_frame (h : Joins t t' p c) {q : P} (hq : q ∈ t'.owners) :
    ∃ r ∈ t.owners, (q = c → r = p) ∧ (q ≠ c → r = q) ∧ ∀ i, t'.frame q i = t.frame r i := by
  by_cases hqc : q = c
  · subst hqc
    exact ⟨p, h.parent, fun _ => rfl, fun hc => absurd rfl hc, h.frame_child⟩
  · rw [h.owners, Finset.mem_insert] at hq
    have hq := hq.resolve_left hqc
    exact ⟨q, hq, fun hc => absurd hc hqc, fun _ => rfl, h.frame q hq⟩

theorem sound (h : Joins t t' p c) (ht : t.Sound) : t'.Sound where
  page_eq q hq r hr i j he := by
    obtain ⟨q₀, hq₀, -, -, hfq⟩ := h.exists_frame hq
    obtain ⟨r₀, hr₀, -, -, hfr⟩ := h.exists_frame hr
    rw [hfq, hfr] at he
    exact ht.page_eq q₀ hq₀ r₀ hr₀ i j he
  count_eq q hq i := by
    obtain ⟨q₀, hq₀, -, -, hfq⟩ := h.exists_frame hq
    -- the new owner is one more where the page is the parent's
    have hsharers : t'.sharers i (t.frame q₀ i)
        = if t.frame p i = t.frame q₀ i then insert c (t.sharers i (t.frame q₀ i))
          else t.sharers i (t.frame q₀ i) := by
      ext r
      have hold : r ∈ t.owners → (t'.frame r i = t.frame q₀ i ↔ t.frame r i = t.frame q₀ i) :=
        fun hr => by rw [h.frame r hr]
      have hnew : r = c → (t'.frame r i = t.frame q₀ i ↔ t.frame p i = t.frame q₀ i) :=
        fun hr => by rw [hr, h.frame_child]
      have hchild := h.child
      split_ifs <;> simp only [mem_sharers, h.owners, Finset.mem_insert] <;> grind
    rw [hfq, h.count q₀ hq₀, hsharers, ht.count_eq q₀ hq₀]
    split_ifs with hp
    · rw [Finset.card_insert_of_notMem]
      exact fun hc => h.child (mem_sharers.mp hc).1
    · rfl
  alone q hq i hw r hr he := by
    by_cases hqc : q = c
    · rw [hqc, h.writable_child] at hw
      exact absurd hw Bool.false_ne_true
    rw [h.owners, Finset.mem_insert] at hq
    have hq := hq.resolve_left hqc
    obtain ⟨hw, hqp⟩ := h.writable q hq i hw
    rw [h.frame q hq] at he
    by_cases hrc : r = c
    · -- the page would be the parent's as well
      rw [hrc, h.frame_child] at he
      exact absurd (ht.alone q hq i hw p h.parent he).symm hqp
    · rw [h.owners, Finset.mem_insert] at hr
      have hr := hr.resolve_left hrc
      rw [h.frame r hr] at he
      exact ht.alone q hq i hw r hr he

end Joins

/-! ## A page gets a frame of its own -/

/-- **A page moved to a frame nobody has.** -/
structure Splits (t t' : SharedPages P I F) (p : P) (i : I) (g : F) : Prop where
  owner : p ∈ t.owners
  fresh : ∀ q ∈ t.owners, ∀ j, t.frame q j ≠ g
  owners : t'.owners = t.owners
  frame_self : t'.frame p i = g
  frame : ∀ q ∈ t.owners, ∀ j, ¬ (q = p ∧ j = i) → t'.frame q j = t.frame q j
  count_self : t'.count g = 1
  count_old : t'.count (t.frame p i) = t.count (t.frame p i) - 1
  count : ∀ q ∈ t.owners, ∀ j, t.frame q j ≠ t.frame p i →
    t'.count (t.frame q j) = t.count (t.frame q j)
  writable : ∀ q ∈ t.owners, ∀ j, ¬ (q = p ∧ j = i) → t'.writable q j = t.writable q j

namespace Splits

variable {p : P} {i : I} {g : F}

theorem sound (h : Splits t t' p i g) (ht : t.Sound) : t'.Sound where
  page_eq q hq r hr j j' he := by
    rw [h.owners] at hq hr
    by_cases hqi : q = p ∧ j = i <;> by_cases hri : r = p ∧ j' = i
    · rw [hqi.2, hri.2]
    · rw [hqi.1, hqi.2, h.frame_self, h.frame r hr j' hri] at he
      exact absurd he.symm (h.fresh r hr j')
    · rw [hri.1, hri.2, h.frame_self, h.frame q hq j hqi] at he
      exact absurd he (h.fresh q hq j)
    · rw [h.frame q hq j hqi, h.frame r hr j' hri] at he
      exact ht.page_eq q hq r hr j j' he
  count_eq q hq j := by
    rw [h.owners] at hq
    have hmem : ∀ r f, r ∈ t'.sharers j f ↔ r ∈ t.owners ∧ t'.frame r j = f := by
      intro r f
      rw [mem_sharers, h.owners]
    by_cases hqi : q = p ∧ j = i
    · -- the new frame has one owner
      obtain ⟨rfl, rfl⟩ := hqi
      rw [h.frame_self, h.count_self, eq_comm, Finset.card_eq_one]
      refine ⟨q, Finset.ext (fun r => ?_)⟩
      rw [hmem, Finset.mem_singleton]
      constructor
      · rintro ⟨hr, hf⟩
        by_contra hne
        rw [h.frame r hr j (fun hc => hne hc.1)] at hf
        exact h.fresh r hr j hf
      · rintro rfl
        exact ⟨hq, h.frame_self⟩
    rw [h.frame q hq j hqi]
    have hq' := ht.count_eq q hq j
    by_cases hold : t.frame q j = t.frame p i
    · -- the old frame has one owner less
      obtain rfl := ht.page_eq q hq p h.owner j i hold
      have hsharers : t'.sharers j (t.frame p j) = (t.sharers j (t.frame p j)).erase p := by
        ext r
        rw [hmem, Finset.mem_erase, mem_sharers]
        by_cases hrp : r = p
        · subst hrp
          rw [h.frame_self]
          exact iff_of_false (fun hc => h.fresh r h.owner j hc.2.symm) (fun hc => hc.1 rfl)
        · constructor
          · rintro ⟨hr, hf⟩
            rw [h.frame r hr j (fun hc => hrp hc.1)] at hf
            exact ⟨hrp, hr, hf⟩
          · rintro ⟨-, hr, hf⟩
            rw [h.frame r hr j (fun hc => hrp hc.1)]
            exact ⟨hr, hf⟩
      rw [hold] at hq' ⊢
      rw [h.count_old, hq', hsharers,
        Finset.card_erase_of_mem (mem_sharers.mpr ⟨h.owner, rfl⟩)]
    · have hsharers : t'.sharers j (t.frame q j) = t.sharers j (t.frame q j) := by
        ext r
        rw [hmem, mem_sharers]
        refine and_congr_right (fun hr => ?_)
        by_cases hri : r = p ∧ j = i
        · rw [hri.1, hri.2, h.frame_self]
          rw [hri.2] at hold
          exact iff_of_false (h.fresh q hq i).symm (Ne.symm hold)
        · rw [h.frame r hr j hri]
      rw [h.count q hq j hold, hq', hsharers]
  alone q hq j hw r hr he := by
    rw [h.owners] at hq hr
    by_cases hqi : q = p ∧ j = i
    · obtain ⟨rfl, rfl⟩ := hqi
      by_contra hne
      rw [h.frame_self, h.frame r hr j (fun hc => hne hc.1)] at he
      exact h.fresh r hr j he
    rw [h.writable q hq j hqi] at hw
    rw [h.frame q hq j hqi] at he
    by_cases hri : r = p ∧ j = i
    · rw [hri.1, hri.2, h.frame_self] at he
      rw [hri.2] at hw
      exact absurd he.symm (h.fresh q hq _)
    · rw [h.frame r hr j hri] at he
      exact ht.alone q hq j hw r hr he

end Splits

/-! ## An owner leaves -/

/-- **An owner gone**, and what was counted for the others is as it was. -/
structure Leaves (t t' : SharedPages P I F) (p : P) : Prop where
  owners : t'.owners = t.owners.erase p
  frame : ∀ q ∈ t'.owners, ∀ i, t'.frame q i = t.frame q i
  count : ∀ q ∈ t'.owners, ∀ i, t'.count (t.frame q i) = t.count (t.frame q i)
  writable : ∀ q ∈ t'.owners, ∀ i, t'.writable q i = t.writable q i

/-- An owner that shares no frame may leave. -/
theorem Leaves.sound {p : P} (h : Leaves t t' p) (ht : t.Sound)
    (hapart : ∀ q ∈ t'.owners, ∀ i, t.frame q i ≠ t.frame p i) : t'.Sound := by
  have hmem : ∀ q ∈ t'.owners, q ∈ t.owners := fun q hq =>
    Finset.mem_of_mem_erase (h.owners ▸ hq)
  refine ⟨fun q hq r hr i j he => ?_, fun q hq i => ?_, fun q hq i hw r hr he => ?_⟩
  · rw [h.frame q hq, h.frame r hr] at he
    exact ht.page_eq q (hmem q hq) r (hmem r hr) i j he
  · have hsharers : t'.sharers i (t.frame q i) = t.sharers i (t.frame q i) := by
      ext r
      rw [mem_sharers, mem_sharers]
      constructor
      · rintro ⟨hr, hf⟩
        exact ⟨hmem r hr, (h.frame r hr i).symm.trans hf⟩
      · rintro ⟨hr, hf⟩
        have hrp : r ≠ p := by
          rintro rfl
          exact hapart q hq i hf.symm
        have hr' : r ∈ t'.owners := by
          rw [h.owners]
          exact Finset.mem_erase.mpr ⟨hrp, hr⟩
        exact ⟨hr', (h.frame r hr' i).trans hf⟩
    rw [h.frame q hq, h.count q hq, hsharers]
    exact ht.count_eq q (hmem q hq) i
  · rw [h.frame q hq, h.frame r hr] at he
    rw [h.writable q hq] at hw
    exact ht.alone q (hmem q hq) i hw r (hmem r hr) he

/-! ## What the owners read -/

section Contents

variable {V : Type*} {mem mem' : F → V}

/-- What an owner reads in a page. -/
def view (t : SharedPages P I F) (mem : F → V) (p : P) (i : I) : V := mem (t.frame p i)

/-- **An owner that joins reads what the first one reads**, and the others
read what they did. -/
theorem Joins.view_eq {p c : P} (h : Joins t t' p c) (mem : F → V) :
    (∀ i, t'.view mem c i = t.view mem p i)
      ∧ ∀ q ∈ t.owners, ∀ i, t'.view mem q i = t.view mem q i := by
  refine ⟨fun i => ?_, fun q hq i => ?_⟩
  · rw [view, view, h.frame_child]
  · rw [view, view, h.frame q hq]

omit [DecidableEq F] in
/-- **A page that gets a frame of its own reads as before** once the frame
holds what the old one holds. -/
theorem Splits.view_eq {p : P} {i : I} {g : F} (h : Splits t t' p i g)
    (hcopy : mem' g = mem (t.frame p i)) (hother : ∀ f, f ≠ g → mem' f = mem f) {q : P}
    (hq : q ∈ t.owners) (j : I) : t'.view mem' q j = t.view mem q j := by
  rw [view, view]
  by_cases hqi : q = p ∧ j = i
  · rw [hqi.1, hqi.2, h.frame_self, hcopy]
  · rw [h.frame q hq j hqi, hother _ (h.fresh q hq j)]

omit [DecidableEq P] in
/-- **A write to a page that may be written to** is seen by its owner, in
that page, and by nobody else. -/
theorem Sound.view_write (ht : t.Sound) {p : P} {i : I} (hp : p ∈ t.owners)
    (hw : t.writable p i = true) (hother : ∀ f, f ≠ t.frame p i → mem' f = mem f) {q : P} {j : I}
    (hq : q ∈ t.owners) (hne : ¬ (q = p ∧ j = i)) : t.view mem' q j = t.view mem q j := by
  refine hother _ (fun hf => hne ?_)
  obtain rfl := ht.page_eq q hq p hp j i hf
  exact ⟨ht.alone p hp j hw q hq hf, rfl⟩

end Contents

end SharedPages
