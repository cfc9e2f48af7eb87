import Mathlib.Data.List.Nodup
import Mathlib.Logic.Function.Basic

/-!
# Circular doubly linked lists

A node carries a forward and a backward pointer, either of which may be
null, and a list is a ring of nodes through a head that carries no element.
Everything here is about the pointers alone: `Links N` is the pointer store
of a type of nodes, and what a node is the link of does not matter.

`Seg h a xs b` says the pointers lead from `a` through the nodes `xs` to
`b`, forward and backward; a ring is a segment from the head to itself over
distinct nodes. The two edits a list offers are local – a node is inserted
between two neighbours, or its neighbours are joined over it – and each is
proved on segments, where there is no wrapping around, and then read on
rings.
-/

variable {N : Type*}

/-- The pointers of a node. -/
structure ListHead (N : Type*) where
  /-- The node after this one, if the pointer is not null. -/
  next : Option N
  /-- The node before this one, if the pointer is not null. -/
  prev : Option N
deriving DecidableEq

/-- The pointers of every node. -/
abbrev Links (N : Type*) := N → ListHead N

namespace Links

/-- `a` and `b` point at each other, `a` forward and `b` backward. -/
def Linked (h : Links N) (a b : N) : Prop :=
  (h a).next = some b ∧ (h b).prev = some a

/-- **The pointers lead from `a` through `xs` to `b`**, both ways. -/
def Seg (h : Links N) (a : N) : List N → N → Prop
  | [], b => h.Linked a b
  | x :: xs, b => h.Linked a x ∧ h.Seg x xs b

/-- **A ring**: distinct nodes, and pointers from the head through them back
to the head. -/
structure IsRing (h : Links N) (head : N) (xs : List N) : Prop where
  /-- No node occurs twice, and the head is not one of the elements. -/
  nodup : (head :: xs).Nodup
  /-- The pointers lead around the ring. -/
  seg : h.Seg head xs head

/-- A node is linked when its neighbours exist and point back at it. -/
def IsLinked (h : Links N) (x : N) : Prop :=
  ∃ a b, h.Linked a x ∧ h.Linked x b

/-! ## Segments -/

/-- A segment is cut at any of its nodes. -/
theorem seg_append {h : Links N} {a x b : N} {xs ys : List N} :
    h.Seg a (xs ++ x :: ys) b ↔ h.Seg a xs x ∧ h.Seg x ys b := by
  induction xs generalizing a with
  | nil => exact Iff.rfl
  | cons y xs ih =>
    rw [List.cons_append, Seg, Seg, ih, and_assoc]

/-- A segment reads the forward pointers of all its nodes but the last and
the backward pointers of all but the first. -/
theorem Seg.congr {h h' : Links N} {a b : N} {xs : List N} (hs : h.Seg a xs b)
    (hnext : ∀ y ∈ a :: xs, (h' y).next = (h y).next)
    (hprev : ∀ y ∈ xs ++ [b], (h' y).prev = (h y).prev) : h'.Seg a xs b := by
  induction xs generalizing a with
  | nil =>
    exact ⟨(hnext a (List.mem_singleton_self a)).trans hs.1,
      (hprev b (List.mem_singleton_self b)).trans hs.2⟩
  | cons x xs ih =>
    refine ⟨⟨(hnext a List.mem_cons_self).trans hs.1.1,
      (hprev x List.mem_cons_self).trans hs.1.2⟩, ?_⟩
    exact ih hs.2 (fun y hy => hnext y (List.mem_cons_of_mem a hy))
      (fun y hy => hprev y (List.mem_cons_of_mem x hy))

/-- The node a segment leaves its start for. -/
theorem Seg.next_eq {h : Links N} {a b : N} {xs : List N} (hs : h.Seg a xs b) :
    (h a).next = some ((xs ++ [b]).head (by simp)) := by
  cases xs with
  | nil => exact hs.1
  | cons x xs => exact hs.1.1

/-- Every node a segment leaves has its successor in the segment. -/
theorem Seg.exists_next {h : Links N} {a b : N} {xs : List N} (hs : h.Seg a xs b)
    {y : N} (hy : y ∈ a :: xs) : ∃ z ∈ xs ++ [b], (h y).next = some z := by
  induction xs generalizing a with
  | nil =>
    rw [List.mem_singleton.mp hy]
    exact ⟨b, List.mem_singleton_self b, hs.1⟩
  | cons x xs ih =>
    rcases List.mem_cons.mp hy with rfl | hm
    · exact ⟨x, List.mem_cons_self, hs.1.1⟩
    · obtain ⟨z, hz, hnext⟩ := ih hs.2 hm
      exact ⟨z, List.mem_cons_of_mem x hz, hnext⟩

/-- Every node a segment enters has its predecessor in the segment. -/
theorem Seg.exists_prev {h : Links N} {a b : N} {xs : List N} (hs : h.Seg a xs b)
    {y : N} (hy : y ∈ xs ++ [b]) : ∃ z ∈ a :: xs, (h y).prev = some z := by
  induction xs generalizing a with
  | nil =>
    rw [List.mem_singleton.mp hy]
    exact ⟨a, List.mem_singleton_self a, hs.2⟩
  | cons x xs ih =>
    rcases List.mem_cons.mp hy with rfl | hm
    · exact ⟨a, List.mem_cons_self, hs.1.2⟩
    · obtain ⟨z, hz, hprev⟩ := ih hs.2 hm
      exact ⟨z, List.mem_cons_of_mem a hz, hprev⟩

/-! ## Rings -/

/-- A ring does not depend on the pointers of nodes outside it. -/
theorem IsRing.congr {h h' : Links N} {head : N} {xs : List N}
    (hr : h.IsRing head xs) (heq : ∀ y ∈ head :: xs, h' y = h y) :
    h'.IsRing head xs := by
  refine ⟨hr.nodup, hr.seg.congr (fun y hy => by rw [heq y hy]) (fun y hy => ?_)⟩
  rw [heq y (by simpa [or_comm] using hy)]

/-- A ring is empty exactly when its head points at itself. -/
theorem IsRing.next_eq_head_iff {h : Links N} {head : N} {xs : List N}
    (hr : h.IsRing head xs) : (h head).next = some head ↔ xs = [] := by
  rw [hr.seg.next_eq, Option.some_inj]
  cases xs with
  | nil => simp
  | cons x xs =>
    have hne : head ≠ x := fun he =>
      (List.nodup_cons.mp hr.nodup).1 (he ▸ List.mem_cons_self)
    simpa using hne.symm

/-- The head of a non-empty ring points at its first element. -/
theorem IsRing.next_head {h : Links N} {head x : N} {xs : List N}
    (hr : h.IsRing head (x :: xs)) : (h head).next = some x := hr.seg.1.1

/-- Every node of a ring has both neighbours. -/
theorem IsRing.isLinked {h : Links N} {head x : N} {xs : List N}
    (hr : h.IsRing head xs) (hx : x ∈ xs) : h.IsLinked x := by
  obtain ⟨ys, zs, rfl⟩ := List.append_of_mem hx
  obtain ⟨hl, hz⟩ := seg_append.mp hr.seg
  have hpred : ∃ a, h.Linked a x := by
    rcases List.eq_nil_or_concat ys with rfl | ⟨ws, w, rfl⟩
    · exact ⟨head, hl⟩
    · rw [List.concat_eq_append, seg_append] at hl
      exact ⟨w, hl.2⟩
  obtain ⟨a, ha⟩ := hpred
  cases zs with
  | nil => exact ⟨a, head, ha, hz⟩
  | cons z zs => exact ⟨a, z, ha, hz.1⟩

/-- **A ring can be read from its first element**, with the head as its last
one. -/
theorem isRing_rotate {h : Links N} {a b : N} {xs : List N} :
    h.IsRing a (b :: xs) ↔ h.IsRing b (xs ++ [a]) := by
  have hperm : (b :: (xs ++ [a])).Nodup ↔ (a :: b :: xs).Nodup :=
    (List.perm_append_singleton a (b :: xs)).nodup_iff
  constructor
  · rintro ⟨hnd, hab, hseg⟩
    exact ⟨hperm.mpr hnd, seg_append.mpr ⟨hseg, hab⟩⟩
  · rintro ⟨hnd, hseg⟩
    obtain ⟨hseg, hab⟩ := seg_append.mp hseg
    exact ⟨hperm.mp hnd, hab, hseg⟩

/-! ## Following the pointers -/

variable [DecidableEq N]

/-- The nodes found by following the forward pointers from `a` until they
reach `b`, within a number of steps. -/
def walk (h : Links N) (b : N) : ℕ → N → List N
  | 0, _ => []
  | fuel + 1, a =>
    match (h a).next with
    | none => []
    | some x => if x = b then [] else x :: h.walk b fuel x

/-- **Following the pointers of a ring finds its elements**, given enough
steps. -/
theorem IsRing.walk_eq {h : Links N} {head : N} {xs : List N}
    (hr : h.IsRing head xs) {fuel : ℕ} (hf : xs.length < fuel) :
    h.walk head fuel head = xs := by
  have key : ∀ (ys : List N) (a : N) (n : ℕ), h.Seg a ys head → head ∉ ys →
      ys.length < n → h.walk head n a = ys := by
    intro ys
    induction ys with
    | nil =>
      rintro a (_ | n) hs _ hn
      · exact absurd hn (by simp)
      · rw [walk, hs.1]
        simp
    | cons y ys ih =>
      rintro a (_ | n) hs hmem hn
      · exact absurd hn (by simp)
      · have hne : y ≠ head := fun he => hmem (he ▸ List.mem_cons_self)
        rw [walk, hs.1.1]
        simp only [if_neg hne]
        rw [ih y n hs.2 (fun hm => hmem (List.mem_cons_of_mem y hm))
          (Nat.lt_of_succ_lt_succ hn)]
  exact key xs head fuel hr.seg (List.nodup_cons.mp hr.nodup).1 hf

/-- The pointers decide what the ring of a head is. -/
theorem IsRing.unique {h : Links N} {head : N} {xs ys : List N} (hx : h.IsRing head xs)
    (hy : h.IsRing head ys) : xs = ys := by
  have hxw := hx.walk_eq (Nat.lt_succ_of_le (Nat.le_add_right xs.length ys.length))
  have hyw := hy.walk_eq (Nat.lt_succ_of_le (Nat.le_add_left ys.length xs.length))
  exact hxw.symm.trans hyw

/-! ## The two edits -/

/-- Store a forward pointer. -/
def setNext (h : Links N) (a : N) (v : Option N) : Links N :=
  fun y => if y = a then { h y with next := v } else h y

/-- Store a backward pointer. -/
def setPrev (h : Links N) (a : N) (v : Option N) : Links N :=
  fun y => if y = a then { h y with prev := v } else h y

theorem setNext_apply (h : Links N) (a : N) (v : Option N) (y : N) :
    h.setNext a v y = if y = a then { h y with next := v } else h y := rfl

theorem setPrev_apply (h : Links N) (a : N) (v : Option N) (y : N) :
    h.setPrev a v y = if y = a then { h y with prev := v } else h y := rfl

/-- The node `e` put between `p` and `n`. -/
def insertBetween (h : Links N) (e p n : N) : Links N :=
  (((h.setPrev n (some e)).setNext e (some n)).setPrev e (some p)).setNext p (some e)

/-- The neighbours `p` and `n` of `x` joined over it, and `x` left with null
pointers. -/
def unlinkBetween (h : Links N) (x p n : N) : Links N :=
  (((h.setPrev n (some p)).setNext p (some n)).setNext x none).setPrev x none

/-- The forward pointers after an insertion. -/
theorem insertBetween_next (h : Links N) {e p n : N} (hep : e ≠ p) (y : N) :
    (h.insertBetween e p n y).next
      = if y = p then some e else if y = e then some n else (h y).next := by
  unfold insertBetween
  simp only [setNext_apply, setPrev_apply]
  split_ifs <;> simp_all

/-- The backward pointers after an insertion. -/
theorem insertBetween_prev (h : Links N) {e p n : N} (hen : e ≠ n) (y : N) :
    (h.insertBetween e p n y).prev
      = if y = n then some e else if y = e then some p else (h y).prev := by
  unfold insertBetween
  simp only [setNext_apply, setPrev_apply]
  split_ifs <;> simp_all

/-- The forward pointers after an unlinking. -/
theorem unlinkBetween_next (h : Links N) (x p n y : N) :
    (h.unlinkBetween x p n y).next
      = if y = x then none else if y = p then some n else (h y).next := by
  unfold unlinkBetween
  simp only [setNext_apply, setPrev_apply]
  split_ifs <;> simp_all

/-- The backward pointers after an unlinking. -/
theorem unlinkBetween_prev (h : Links N) (x p n y : N) :
    (h.unlinkBetween x p n y).prev
      = if y = x then none else if y = n then some p else (h y).prev := by
  unfold unlinkBetween
  simp only [setNext_apply, setPrev_apply]
  split_ifs <;> simp_all

/-- Unlinking leaves the node with null pointers. -/
theorem unlinkBetween_self (h : Links N) (x p n : N) :
    h.unlinkBetween x p n x = ⟨none, none⟩ := by
  have h₁ := h.unlinkBetween_next x p n x
  have h₂ := h.unlinkBetween_prev x p n x
  rw [if_pos rfl] at h₁ h₂
  cases hx : h.unlinkBetween x p n x with
  | mk a b =>
    rw [hx] at h₁ h₂
    rw [show a = none from h₁, show b = none from h₂]

/-- An insertion touches its three nodes only. -/
theorem insertBetween_of_ne (h : Links N) {e p n y : N} (he : y ≠ e) (hp : y ≠ p)
    (hn : y ≠ n) : h.insertBetween e p n y = h y := by
  unfold insertBetween
  simp only [setNext_apply, setPrev_apply, if_neg he, if_neg hp, if_neg hn]

/-- An unlinking touches its three nodes only. -/
theorem unlinkBetween_of_ne (h : Links N) {x p n y : N} (hx : y ≠ x) (hp : y ≠ p)
    (hn : y ≠ n) : h.unlinkBetween x p n y = h y := by
  unfold unlinkBetween
  simp only [setNext_apply, setPrev_apply, if_neg hx, if_neg hp, if_neg hn]

/-- **Inserting before the head appends.** The last node of a ring is the
head's predecessor, and a new node put between the two is the new last
element. -/
theorem IsRing.insert_before_head {h : Links N} {head e : N} {xs : List N}
    (hr : h.IsRing head xs) (he : e ∉ head :: xs) :
    ∃ p, (h head).prev = some p ∧ p ∈ head :: xs
      ∧ (h.insertBetween e p head).IsRing head (xs ++ [e]) := by
  have hnd : (head :: (xs ++ [e])).Nodup := by
    rw [← List.cons_append]
    exact List.nodup_append.mpr ⟨hr.nodup, List.nodup_singleton e, fun y hy z hz => by
      rw [List.mem_singleton] at hz
      exact fun hyz => he (hz ▸ hyz ▸ hy)⟩
  have heh : e ≠ head := fun hc => he (hc ▸ List.mem_cons_self)
  rcases List.eq_nil_or_concat xs with rfl | ⟨ys, l, rfl⟩
  · refine ⟨head, hr.seg.2, List.mem_singleton_self head, hnd, ?_⟩
    refine ⟨⟨?_, ?_⟩, ?_, ?_⟩
    · rw [insertBetween_next _ heh, if_pos rfl]
    · rw [insertBetween_prev _ heh, if_neg heh, if_pos rfl]
    · rw [insertBetween_next _ heh, if_neg heh, if_pos rfl]
    · rw [insertBetween_prev _ heh, if_pos rfl]
  · rw [List.concat_eq_append] at hr he hnd ⊢
    have hel : e ≠ l := fun hc => he (by simp [hc])
    have hhl : l ≠ head := fun hc => (List.nodup_cons.mp hr.nodup).1 (by simp [hc])
    have hys : ∀ y ∈ head :: ys, y ≠ l := by
      intro y hy hc
      have := hr.nodup
      rw [← List.cons_append, List.nodup_append] at this
      exact this.2.2 y hy l (List.mem_singleton_self l) hc
    obtain ⟨hseg, hlast⟩ := seg_append.mp hr.seg
    refine ⟨l, hlast.2, by simp, hnd, ?_⟩
    rw [List.append_assoc]
    refine seg_append.mpr ⟨hseg.congr (fun y hy => ?_) (fun y hy => ?_), ⟨?_, ?_⟩, ?_, ?_⟩
    · rw [insertBetween_next _ hel, if_neg (hys y hy), if_neg]
      exact fun hc => he (by
        rw [← hc, ← List.cons_append]
        exact List.mem_append_left _ hy)
    · have hyh : y ≠ head := fun hc => (List.nodup_cons.mp hr.nodup).1 (hc ▸ hy)
      have hye : y ≠ e := fun hc => he (List.mem_cons_of_mem _ (hc ▸ hy))
      rw [insertBetween_prev _ heh, if_neg hyh, if_neg hye]
    · rw [insertBetween_next _ hel, if_pos rfl]
    · rw [insertBetween_prev _ heh, if_neg heh, if_pos rfl]
    · rw [insertBetween_next _ hel, if_neg hel, if_pos rfl]
    · rw [insertBetween_prev _ heh, if_pos rfl]

/-- **Inserting after the head prepends.** -/
theorem IsRing.insert_after_head {h : Links N} {head e : N} {xs : List N}
    (hr : h.IsRing head xs) (he : e ∉ head :: xs) :
    ∃ n, (h head).next = some n ∧ n ∈ head :: xs
      ∧ (h.insertBetween e head n).IsRing head (e :: xs) := by
  cases xs with
  | nil =>
    obtain ⟨p, -, hp, hring⟩ := hr.insert_before_head he
    rw [List.mem_singleton.mp hp] at hring
    exact ⟨head, hr.seg.1, List.mem_singleton_self head, hring⟩
  | cons x xs =>
    -- read from `x`, the new node goes before the head
    have hrot := isRing_rotate.mp hr
    have hmem : e ∉ x :: (xs ++ [head]) := by
      intro hm
      exact he ((List.perm_append_singleton head (x :: xs)).mem_iff.mp hm)
    obtain ⟨p, hprev, -, hring⟩ := hrot.insert_before_head hmem
    have hp : p = head := Option.some_inj.mp (hprev.symm.trans hr.seg.1.2)
    rw [hp] at hring
    exact ⟨x, hr.seg.1.1, List.mem_cons_of_mem head List.mem_cons_self,
      isRing_rotate.mpr (isRing_rotate.mpr hring)⟩

/-- A segment that does not pass through the unlinked node is untouched:
the only forward pointer rewritten is one to that node, and so is the only
backward one. -/
theorem Seg.unlink_of_notMem {h : Links N} {a x b p n : N} {xs : List N}
    (hs : h.Seg a xs b) (hp : h.Linked p x) (hn : h.Linked x n)
    (hxa : x ≠ a) (hxb : x ≠ b) (hxs : x ∉ xs) :
    (h.unlinkBetween x p n).Seg a xs b := by
  refine hs.congr (fun y hy => ?_) (fun y hy => ?_)
  · have hyx : y ≠ x := by
      rintro rfl
      rcases List.mem_cons.mp hy with rfl | hm
      · exact hxa rfl
      · exact hxs hm
    obtain ⟨z, hz, hnext⟩ := hs.exists_next hy
    have hyp : y ≠ p := by
      rintro rfl
      have hzx : x = z := Option.some_inj.mp (hp.1.symm.trans hnext)
      subst hzx
      rcases List.mem_append.mp hz with hm | hm
      · exact hxs hm
      · exact hxb (List.mem_singleton.mp hm)
    rw [unlinkBetween_next, if_neg hyx, if_neg hyp]
  · have hyx : y ≠ x := by
      rintro rfl
      rcases List.mem_append.mp hy with hm | hm
      · exact hxs hm
      · exact hxb (List.mem_singleton.mp hm)
    obtain ⟨z, hz, hprev⟩ := hs.exists_prev hy
    have hyn : y ≠ n := by
      rintro rfl
      have hzx : x = z := Option.some_inj.mp (hn.2.symm.trans hprev)
      subst hzx
      rcases List.mem_cons.mp hz with hm | hm
      · exact hxa hm
      · exact hxs hm
    rw [unlinkBetween_prev, if_neg hyx, if_neg hyn]

/-- Joining over a node takes it out of a segment. The induction is on the
nodes before it, whose pointers are untouched. -/
theorem Seg.unlink {h : Links N} {a x b p n : N} {ys zs : List N}
    (hy : h.Seg a ys x) (hz : h.Seg x zs b) (hp : h.Linked p x) (hn : h.Linked x n)
    (hxa : x ≠ a) (hxb : x ≠ b) (hxy : x ∉ ys) (hxz : x ∉ zs) :
    (h.unlinkBetween x p n).Seg a (ys ++ zs) b := by
  induction ys generalizing a with
  | nil =>
    have hpa : p = a := Option.some_inj.mp (hp.2.symm.trans hy.2)
    subst hpa
    have hnext : (h.unlinkBetween x p n p).next = some n := by
      rw [unlinkBetween_next, if_neg hxa.symm, if_pos rfl]
    cases zs with
    | nil =>
      have hnb : n = b := Option.some_inj.mp (hn.1.symm.trans hz.1)
      subst hnb
      refine ⟨hnext, ?_⟩
      rw [unlinkBetween_prev, if_neg hxb.symm, if_pos rfl]
    | cons z zs =>
      have hnz : n = z := Option.some_inj.mp (hn.1.symm.trans hz.1.1)
      subst hnz
      have hxn : x ≠ n := fun hc => hxz (hc ▸ List.mem_cons_self)
      refine ⟨⟨hnext, ?_⟩, ?_⟩
      · rw [unlinkBetween_prev, if_neg hxn.symm, if_pos rfl]
      · exact hz.2.unlink_of_notMem hp hn hxn hxb
          (fun hm => hxz (List.mem_cons_of_mem n hm))
  | cons y ys ih =>
    have hxy' : x ≠ y := fun hc => hxy (hc ▸ List.mem_cons_self)
    have hay : h.Seg a [] y := hy.1
    exact ⟨hay.unlink_of_notMem hp hn hxa hxy' List.not_mem_nil,
      ih hy.2 hxy' (fun hm => hxy (List.mem_cons_of_mem y hm))⟩

/-- **Unlinking removes the element**, wherever in the ring it is. -/
theorem IsRing.unlink {h : Links N} {head x : N} {ys zs : List N}
    (hr : h.IsRing head (ys ++ x :: zs)) :
    ∃ p n, (h x).prev = some p ∧ (h x).next = some n
      ∧ p ∈ head :: (ys ++ zs) ∧ n ∈ head :: (ys ++ zs)
      ∧ (h.unlinkBetween x p n).IsRing head (ys ++ zs) := by
  obtain ⟨hy, hz⟩ := seg_append.mp hr.seg
  have hnd := hr.nodup
  have hxh : x ≠ head := by
    rintro rfl
    exact (List.nodup_cons.mp hnd).1 (by simp)
  have hmid := List.nodup_middle.mp (List.nodup_cons.mp hnd).2
  have hxyz : x ∉ ys ++ zs := (List.nodup_cons.mp hmid).1
  obtain ⟨z, hzmem, hnext⟩ := hz.exists_next List.mem_cons_self
  obtain ⟨w, hwmem, hprev⟩ := hy.exists_prev (List.mem_append_right ys (List.mem_singleton_self x))
  refine ⟨w, z, hprev, hnext, ?_, ?_, ?_, ?_⟩
  · rcases List.mem_cons.mp hwmem with rfl | hm
    · exact List.mem_cons_self
    · exact List.mem_cons_of_mem _ (List.mem_append_left zs hm)
  · rcases List.mem_append.mp hzmem with hm | hm
    · exact List.mem_cons_of_mem _ (List.mem_append_right ys hm)
    · rw [List.mem_singleton.mp hm]
      exact List.mem_cons_self
  · refine List.nodup_cons.mpr ⟨fun hm => (List.nodup_cons.mp hnd).1 ?_,
      (List.nodup_cons.mp hmid).2⟩
    rcases List.mem_append.mp hm with hm | hm
    · exact List.mem_append_left _ hm
    · exact List.mem_append_right _ (List.mem_cons_of_mem x hm)
  · have hlast : h.Linked w x := by
      obtain ⟨a, b, ha, hb⟩ := hr.isLinked (x := x) (by simp)
      have haw : a = w := Option.some_inj.mp (ha.2.symm.trans hprev)
      exact haw ▸ ha
    have hfirst : h.Linked x z := by
      obtain ⟨a, b, ha, hb⟩ := hr.isLinked (x := x) (by simp)
      have hbz : b = z := Option.some_inj.mp (hb.1.symm.trans hnext)
      exact hbz ▸ hb
    exact hy.unlink hz hlast hfirst hxh hxh
      (fun hm => hxyz (List.mem_append_left zs hm))
      (fun hm => hxyz (List.mem_append_right ys hm))

/-! ## Chains around a hub

Where the head of a ring has been relinked to other nodes, the old elements
keep their pointers: they still lead through one another to the head, which
does not lead back. Nothing can be found from the head any more, but a node
can still be unlinked from its neighbours. -/

/-- One direction of pointers, `f`, against the other, `g`: from the hub and
from every node of the set it leads to the hub, or to a node of the set that
points back. -/
def Chained (f g : N → Option N) (hub : N) (S : Set N) : Prop :=
  ∀ m, m = hub ∨ m ∈ S → ∃ b, f m = some b ∧ (b = hub ∨ b ∈ S ∧ g b = some m)

/-- **Chains that begin and end at a hub**, through the nodes of a set. -/
structure Loose (h : Links N) (hub : N) (S : Set N) : Prop where
  next : Chained (fun y => (h y).next) (fun y => (h y).prev) hub S
  prev : Chained (fun y => (h y).prev) (fun y => (h y).next) hub S

/-- Joining the neighbours of a node over it, in one direction. -/
theorem Chained.unlink {f g f' g' : N → Option N} {hub p a n : N} {S : Set N}
    (hc : Chained f g hub S) (hp : p ∈ S) (hhub : p ≠ hub) (hg : g p = some a)
    (hf : f p = some n)
    (hf' : ∀ y, f' y = if y = p then none else if y = a then some n else f y)
    (hg' : ∀ y, g' y = if y = p then none else if y = n then some a else g y) :
    Chained f' g' hub (S \ {p}) := by
  have hnext : n = hub ∨ n ∈ S ∧ g n = some p := by
    obtain ⟨b, hb, hor⟩ := hc p (Or.inr hp)
    rwa [Option.some_inj.mp (hf.symm.trans hb)]
  intro m hm
  have hmp : m ≠ p := by
    rintro rfl
    rcases hm with hm | hm
    · exact hhub hm
    · exact hm.2 rfl
  have hmS : m = hub ∨ m ∈ S := hm.imp id And.left
  by_cases hma : m = a
  · refine ⟨n, by rw [hf', if_neg hmp, if_pos hma], hnext.imp id fun hn => ?_⟩
    have hnp : n ≠ p := by
      rintro rfl
      exact hmp (hma.trans (Option.some_inj.mp (hg.symm.trans hn.2)))
    exact ⟨⟨hn.1, hnp⟩, by rw [hg', if_neg hnp, if_pos rfl, hma]⟩
  · obtain ⟨b, hb, hor⟩ := hc m hmS
    refine ⟨b, by rw [hf', if_neg hmp, if_neg hma, hb], ?_⟩
    by_cases hbh : b = hub
    · exact Or.inl hbh
    · obtain ⟨hbS, hback⟩ := hor.resolve_left hbh
      have hbp : b ≠ p := by
        rintro rfl
        exact hma (Option.some_inj.mp (hback.symm.trans hg))
      have hbn : b ≠ n := by
        rintro rfl
        exact hmp (Option.some_inj.mp (hback.symm.trans (hnext.resolve_left hbh).2))
      exact Or.inr ⟨⟨hbS, hbp⟩, by rw [hg', if_neg hbp, if_neg hbn, hback]⟩

/-- **Unlinking a node of a chain** leaves chains. -/
theorem Loose.unlink {h : Links N} {hub p : N} {S : Set N} (hl : h.Loose hub S) (hp : p ∈ S)
    (hhub : p ≠ hub) :
    ∃ a n, (h p).prev = some a ∧ (h p).next = some n ∧ (a = hub ∨ a ∈ S) ∧ (n = hub ∨ n ∈ S)
      ∧ (h.unlinkBetween p a n).Loose hub (S \ {p}) := by
  obtain ⟨a, ha, haS⟩ := hl.prev p (Or.inr hp)
  obtain ⟨n, hn, hnS⟩ := hl.next p (Or.inr hp)
  exact ⟨a, n, ha, hn, haS.imp id And.left, hnS.imp id And.left,
    hl.next.unlink hp hhub ha hn (h.unlinkBetween_next p a n) (h.unlinkBetween_prev p a n),
    hl.prev.unlink hp hhub hn ha (h.unlinkBetween_prev p a n) (h.unlinkBetween_next p a n)⟩

omit [DecidableEq N] in
/-- Every node of a segment points at one that points back. -/
theorem Seg.exists_linked {h : Links N} {a b : N} {xs : List N} (hs : h.Seg a xs b) :
    (∀ y ∈ a :: xs, ∃ z ∈ xs ++ [b], h.Linked y z)
      ∧ ∀ z ∈ xs ++ [b], ∃ y ∈ a :: xs, h.Linked y z := by
  induction xs generalizing a with
  | nil =>
    refine ⟨fun y hy => ?_, fun z hz => ?_⟩
    · exact ⟨b, List.mem_singleton_self b, List.mem_singleton.mp hy ▸ hs⟩
    · exact ⟨a, List.mem_singleton_self a, List.mem_singleton.mp hz ▸ hs⟩
  | cons x xs ih =>
    obtain ⟨hnext, hprev⟩ := ih hs.2
    refine ⟨fun y hy => ?_, fun z hz => ?_⟩
    · rcases List.mem_cons.mp hy with rfl | hm
      · exact ⟨x, List.mem_cons_self, hs.1⟩
      · obtain ⟨z, hz, hl⟩ := hnext y hm
        exact ⟨z, List.mem_cons_of_mem x hz, hl⟩
    · rcases List.mem_cons.mp hz with rfl | hm
      · exact ⟨a, List.mem_cons_self, hs.1⟩
      · obtain ⟨y, hy, hl⟩ := hprev z hm
        exact ⟨y, List.mem_cons_of_mem a hy, hl⟩

omit [DecidableEq N] in
/-- **A ring is chains around its head.** -/
theorem IsRing.loose {h : Links N} {hub : N} {xs : List N} (hr : h.IsRing hub xs) :
    h.Loose hub {y | y ∈ xs} := by
  obtain ⟨hnext, hprev⟩ := hr.seg.exists_linked
  refine ⟨fun m hm => ?_, fun m hm => ?_⟩
  · obtain ⟨b, hb, hlink⟩ := hnext m (List.mem_cons.mpr hm)
    refine ⟨b, hlink.1, ?_⟩
    rcases List.mem_append.mp hb with hb | hb
    · exact Or.inr ⟨hb, hlink.2⟩
    · exact Or.inl (List.mem_singleton.mp hb)
  · obtain ⟨b, hb, hlink⟩ := hprev m (List.mem_append.mpr (hm.symm.imp id List.mem_singleton.mpr))
    exact ⟨b, hlink.2, (List.mem_cons.mp hb).imp id fun hb => ⟨hb, hlink.1⟩⟩

section Chains

omit [DecidableEq N]

variable {f g f' g' : N → Option N} {h h' : Links N} {hub : N} {S T : Set N}

theorem Chained.congr (hc : Chained f g hub S) (hf : ∀ y, y = hub ∨ y ∈ S → f' y = f y)
    (hg : ∀ y ∈ S, g' y = g y) : Chained f' g' hub S := by
  intro m hm
  obtain ⟨b, hb, hor⟩ := hc m hm
  exact ⟨b, (hf m hm).trans hb, hor.imp id fun hbS => ⟨hbS.1, (hg b hbS.1).trans hbS.2⟩⟩

/-- New chains beside old ones whose pointers are left as they are. -/
theorem Chained.union (hT : Chained f' g' hub T) (hS : Chained f g hub S)
    (hf : ∀ y ∈ S, f' y = f y) (hg : ∀ y ∈ S, g' y = g y) : Chained f' g' hub (S ∪ T) := by
  have hnew : ∀ m, m = hub ∨ m ∈ T → ∃ b, f' m = some b ∧ (b = hub ∨ b ∈ S ∪ T ∧ g' b = some m) := by
    intro m hm
    obtain ⟨b, hb, hor⟩ := hT m hm
    exact ⟨b, hb, hor.imp id fun hbT => ⟨Or.inr hbT.1, hbT.2⟩⟩
  rintro m (hm | hm | hm)
  · exact hnew m (Or.inl hm)
  · obtain ⟨b, hb, hor⟩ := hS m (Or.inr hm)
    exact ⟨b, (hf m hm).trans hb,
      hor.imp id fun hbS => ⟨Or.inl hbS.1, (hg b hbS.1).trans hbS.2⟩⟩
  · exact hnew m (Or.inr hm)

/-- Chains read the pointers of the hub and of their nodes. -/
theorem Loose.congr (hl : h.Loose hub S) (heq : ∀ y, y = hub ∨ y ∈ S → h' y = h y) :
    h'.Loose hub S where
  next := hl.next.congr (fun y hy => congrArg ListHead.next (heq y hy))
    (fun y hy => congrArg ListHead.prev (heq y (Or.inr hy)))
  prev := hl.prev.congr (fun y hy => congrArg ListHead.prev (heq y hy))
    (fun y hy => congrArg ListHead.next (heq y (Or.inr hy)))

/-- **New chains beside old ones**, around the same hub: the hub leads to the
new ones. -/
theorem Loose.union (hT : h'.Loose hub T) (hS : h.Loose hub S) (heq : ∀ y ∈ S, h' y = h y) :
    h'.Loose hub (S ∪ T) where
  next := hT.next.union hS.next (fun y hy => congrArg ListHead.next (heq y hy))
    (fun y hy => congrArg ListHead.prev (heq y hy))
  prev := hT.prev.union hS.prev (fun y hy => congrArg ListHead.prev (heq y hy))
    (fun y hy => congrArg ListHead.next (heq y hy))

end Chains

end Links
