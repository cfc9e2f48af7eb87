import ZeOS.CircularList

/-!
# `list.c`

The list of both kernels and of the game, over any type of nodes. Each
function performs the stores of the source in the source's order; a store
through a null pointer has no meaning, so the functions that follow a
pointer before storing are partial.

The statements are the ring rules of `ZeOS.CircularList` read on these
functions: where the head is the head of a ring, adding at the tail appends
and deleting an element removes it.
-/

namespace ZeOS

variable {N : Type*} [DecidableEq N]

/-- Initializes an empty list. -/
def initListHead (h : Links N) (list : N) : Links N :=
  (h.setNext list (some list)).setPrev list (some list)

/-- `__list_add`: insert a new entry between two known consecutive entries. -/
def listAddBetween (h : Links N) (new prev next : N) : Links N :=
  let h := h.setPrev next (some new)
  let h := h.setNext new (some next)
  let h := h.setPrev new (some prev)
  h.setNext prev (some new)

/-- Insert a new entry after the specified head. -/
def listAdd (h : Links N) (new head : N) : Option (Links N) :=
  match (h head).next with
  | some next => some (listAddBetween h new head next)
  | none => none

/-- Insert a new entry before the specified head. -/
def listAddTail (h : Links N) (new head : N) : Option (Links N) :=
  match (h head).prev with
  | some prev => some (listAddBetween h new prev head)
  | none => none

/-- `__list_del`: make the prev/next entries point to each other. -/
def listDelBetween (h : Links N) (prev next : N) : Links N :=
  let h := h.setPrev next (some prev)
  h.setNext prev (some next)

/-- Deletes an entry from its list and clears its pointers. -/
def listDel (h : Links N) (entry : N) : Option (Links N) :=
  match (h entry).prev, (h entry).next with
  | some prev, some next =>
    let h := listDelBetween h prev next
    some ((h.setNext entry none).setPrev entry none)
  | _, _ => none

/-- Tests whether a list is empty. -/
def listEmpty (h : Links N) (head : N) : Bool :=
  decide ((h head).next = some head)

/-- The first list item. -/
def listFirst (h : Links N) (head : N) : Option N := (h head).next

/-- Whether the entry's neighbours exist and point back at it. -/
def listLinked (h : Links N) (entry : N) : Bool :=
  match (h entry).prev, (h entry).next with
  | some prev, some next =>
    decide ((h prev).next = some entry) && decide ((h next).prev = some entry)
  | _, _ => false

/-- An entry put in a list points back at the one before it. -/
theorem prev_listAddBetween (h : Links N) (new prev next : N) :
    (listAddBetween h new prev next new).prev = some prev := by
  simp only [listAddBetween, Links.setNext_apply, Links.setPrev_apply]
  split_ifs <;> rfl

/-! ## On rings -/

theorem listLinked_iff (h : Links N) (entry : N) :
    listLinked h entry = true ↔ h.IsLinked entry := by
  unfold listLinked Links.IsLinked Links.Linked
  cases hp : (h entry).prev with
  | none => simp
  | some p =>
    cases hn : (h entry).next with
    | none => simp
    | some n => simp

/-- An initialized head is an empty ring. -/
theorem isRing_initListHead (h : Links N) (list : N) :
    (initListHead h list).IsRing list [] := by
  refine ⟨List.nodup_singleton list, ?_, ?_⟩
  · simp [initListHead, Links.setNext_apply, Links.setPrev_apply]
  · simp [initListHead, Links.setNext_apply, Links.setPrev_apply]

theorem initListHead_of_ne (h : Links N) {list y : N} (hy : y ≠ list) :
    initListHead h list y = h y := by
  simp [initListHead, Links.setNext_apply, Links.setPrev_apply, hy]

theorem listEmpty_iff {h : Links N} {head : N} {xs : List N}
    (hr : h.IsRing head xs) : listEmpty h head = true ↔ xs = [] := by
  rw [listEmpty, decide_eq_true_iff, hr.next_eq_head_iff]

/-- **Adding after the head prepends**, and touches no node outside the ring
but the new one. -/
theorem listAdd_spec {h : Links N} {head e : N} {xs : List N} (hr : h.IsRing head xs)
    (he : e ∉ head :: xs) :
    ∃ h', listAdd h e head = some h' ∧ h'.IsRing head (e :: xs)
      ∧ ∀ y, y ≠ e → y ∉ head :: xs → h' y = h y := by
  obtain ⟨n, hnext, hn, hring⟩ := hr.insert_after_head he
  refine ⟨h.insertBetween e head n, ?_, hring, fun y hye hy => ?_⟩
  · rw [listAdd, hnext]
    rfl
  · exact h.insertBetween_of_ne hye (fun hc => hy (hc ▸ List.mem_cons_self))
      (fun hc => hy (hc ▸ hn))

/-- **Adding at the tail appends**, and touches no node outside the ring but
the new one. -/
theorem listAddTail_spec {h : Links N} {head e : N} {xs : List N}
    (hr : h.IsRing head xs) (he : e ∉ head :: xs) :
    ∃ h', listAddTail h e head = some h' ∧ h'.IsRing head (xs ++ [e])
      ∧ ∀ y, y ≠ e → y ∉ head :: xs → h' y = h y := by
  obtain ⟨p, hprev, hp, hring⟩ := hr.insert_before_head he
  refine ⟨h.insertBetween e p head, ?_, hring, fun y hye hy => ?_⟩
  · rw [listAddTail, hprev]
    rfl
  · exact h.insertBetween_of_ne hye (fun hc => hy (hc ▸ hp))
      (fun hc => hy (hc ▸ List.mem_cons_self))

/-- **Deleting an element removes it** and clears its pointers, and touches
no node outside the ring. -/
theorem listDel_spec {h : Links N} {head x : N} {ys zs : List N}
    (hr : h.IsRing head (ys ++ x :: zs)) :
    ∃ h', listDel h x = some h' ∧ h'.IsRing head (ys ++ zs) ∧ h' x = ⟨none, none⟩
      ∧ ∀ y, y ∉ head :: (ys ++ x :: zs) → h' y = h y := by
  obtain ⟨p, n, hprev, hnext, hp, hn, hring⟩ := hr.unlink
  have hsub : ∀ {y : N}, y ∈ head :: (ys ++ zs) → y ∈ head :: (ys ++ x :: zs) := by
    intro y hy
    simp only [List.mem_cons, List.mem_append] at hy ⊢
    tauto
  refine ⟨h.unlinkBetween x p n, ?_, hring, h.unlinkBetween_self x p n,
    fun y hy => ?_⟩
  · rw [listDel, hprev, hnext]
    rfl
  · exact h.unlinkBetween_of_ne (fun hc => hy (hc ▸ by simp))
      (fun hc => hy (hc ▸ hsub hp)) (fun hc => hy (hc ▸ hsub hn))

/-! ## Off rings -/

/-- **Deleting a node of a chain** leaves chains around the same hub. -/
theorem listDel_loose {h : Links N} {hub x : N} {S : Set N} (hl : h.Loose hub S) (hx : x ∈ S)
    (hhub : x ≠ hub) :
    ∃ h', listDel h x = some h' ∧ h'.Loose hub (S \ {x})
      ∧ ∀ y, y ≠ hub → y ∉ S → h' y = h y := by
  obtain ⟨p, n, hprev, hnext, hp, hn, hl'⟩ := hl.unlink hx hhub
  refine ⟨h.unlinkBetween x p n, ?_, hl', fun y hyhub hy => ?_⟩
  · rw [listDel, hprev, hnext]
    rfl
  · refine h.unlinkBetween_of_ne (fun hc => hy (hc ▸ hx)) ?_ ?_
    · rintro rfl
      exact hp.elim hyhub hy
    · rintro rfl
      exact hn.elim hyhub hy

/-- **A head put before another one and the other one deleted** takes over
its list, whatever it was the head of. -/
theorem listAddTail_listDel_spec {h : Links N} {head hub : N} {xs : List N}
    (hr : h.IsRing head xs) (hhub : hub ∉ head :: xs) :
    ∃ h₁ h₂, listAddTail h hub head = some h₁ ∧ listDel h₁ head = some h₂
      ∧ h₂.IsRing hub xs ∧ ∀ y, y ≠ hub → y ∉ head :: xs → h₂ y = h y := by
  obtain ⟨h₁, hadd, hring, hframe⟩ := listAddTail_spec hr hhub
  have hrot : h₁.IsRing hub ([] ++ head :: xs) := Links.isRing_rotate.mpr hring
  obtain ⟨h₂, hdel, hring₂, -, hframe₂⟩ := listDel_spec hrot
  refine ⟨h₁, h₂, hadd, hdel, hring₂, fun y hy hmem => ?_⟩
  have hout : y ∉ hub :: ([] ++ head :: xs) := by
    rw [List.nil_append, List.mem_cons, not_or]
    exact ⟨hy, hmem⟩
  rw [hframe₂ y hout, hframe y hy hmem]

end ZeOS
