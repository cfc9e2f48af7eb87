import ZeOS.Run
import ZeOS.Game.Units

/-!
# The list of requests

A direction the player asks for waits in the list `movements` until the cell
that way is not a wall. `start_game` has one node for all of them, its local
`moviments`. That serves while the list is empty; a direction taken while an
earlier one still waits overwrites the node and links it to itself, and from
then on the list is no ring.

The `Ledger` is what the list should hold. It is kept beside the loop, from
what the loop takes and what `is_viable` accepts.
-/

namespace ZeOS.Game

/-- What has become of the requests so far. -/
structure Ledger where
  /-- The directions taken and not yet applied, in order. -/
  pending : List TDir
  /-- Whether each `list_del` met a linked node. -/
  linked : Bool

namespace Play

/-- The direction of the request a node is the link of. -/
def listEntry (s : Play) : ListNode → Option TDir
  | .moviments => some s.moviments
  | .movements => none

/-- The direction `is_viable` accepts where the first request is served. -/
def applied (s : Play) : Option TDir :=
  if listEmpty s.links .movements then none
  else
    match s.isViable .moviments s.moviments with
    | some (true, _) => some s.moviments
    | _ => none

end Play

namespace Ledger

/-- The ledger after a direction was taken, if there was one. -/
def take (l : Ledger) (word : TDir) : Ledger :=
  if word ≠ .null then { l with pending := l.pending ++ [word] } else l

/-- The ledger after the first request was served. -/
def serve (l : Ledger) (s : Play) : Ledger :=
  match s.applied with
  | some direction =>
    { pending := l.pending.erase direction
      linked := l.linked && listLinked s.links .moviments }
  | none => l

/-- The ledger after an iteration. -/
def after (l : Ledger) (s : Play) (e : Tick) : Ledger :=
  match s.takeRequest e.word with
  | some s => (l.take e.word).serve s
  | none => l.take e.word

/-- An iteration, and what it does to the ledger. -/
def step (p : Play × Ledger) (e : Tick) : Option (Play × Ledger) :=
  (p.1.step e).map fun s => (s, p.2.after p.1 e)

/-- **The list is what it should be**: a ring of the pending requests, each
once and in order, empty exactly if there is none; and no `list_del` has met
a node that was not linked. -/
structure Kept (l : Ledger) (s : Play) : Prop where
  ring : ∃ nodes, s.links.IsRing .movements nodes
    ∧ nodes.map s.listEntry = l.pending.map some
  empty : listEmpty s.links .movements = true ↔ l.pending = []
  linked : l.linked = true

end Ledger

/-! ## Rings of one node -/

section Rings

variable {links : Links ListNode}

/-- A ring from `movements` has no other node than `moviments`, and that one
once. -/
theorem eq_of_isRing {nodes : List ListNode} (hr : links.IsRing .movements nodes) :
    nodes = [] ∨ nodes = [.moviments] := by
  obtain ⟨hnot, hnodup⟩ := List.nodup_cons.mp hr.nodup
  have hall : ∀ n ∈ nodes, n = .moviments := by
    intro n hn
    cases n with
    | movements => exact absurd hn hnot
    | moviments => rfl
  match nodes, hall, hnodup with
  | [], _, _ => exact Or.inl rfl
  | [a], hall, _ => exact Or.inr (by rw [hall a List.mem_cons_self])
  | a :: b :: ns, hall, hnodup =>
    have ha := hall a List.mem_cons_self
    have hb := hall b (List.mem_cons_of_mem a List.mem_cons_self)
    exact absurd (ha.trans hb.symm) fun he =>
      (List.nodup_cons.mp hnodup).1 (he ▸ List.mem_cons_self)

/-- Where the head leads to `moviments` and that does not lead back, there is
no ring. -/
theorem not_isRing (hhead : (links .movements).next = some .moviments)
    (hnode : (links .moviments).next ≠ some .movements) (nodes : List ListNode) :
    ¬ links.IsRing .movements nodes := by
  intro hr
  rcases eq_of_isRing hr with rfl | rfl
  · have hself := hr.next_eq_head_iff.mpr rfl
    rw [hhead] at hself
    exact absurd hself (by decide)
  · exact hnode hr.seg.2.1

end Rings

/-! ## What an iteration does to the list -/

namespace Play

variable {s s' : Play}

/-- A move of a phantom leaves the list alone. -/
theorem links_of_movePhantom {past : Fin nphantom → ℤ} {i : Fin nphantom}
    (h : s.movePhantom past i = some s') : s'.links = s.links ∧ s'.moviments = s.moviments := by
  unfold movePhantom at h
  split_ifs at h
  · obtain ⟨game, -, rfl⟩ := Option.map_eq_some_iff.mp h
    exact ⟨rfl, rfl⟩
  · obtain rfl := Option.some_inj.mp h
    exact ⟨rfl, rfl⟩

theorem links_of_movePhantoms {past : Fin nphantom → ℤ} (h : s.movePhantoms past = some s') :
    s'.links = s.links ∧ s'.moviments = s.moviments :=
  movePhantoms_induct (R := fun s s' => s'.links = s.links ∧ s'.moviments = s.moviments)
    (fun _ => ⟨rfl, rfl⟩)
    (fun _ _ _ hst htu => ⟨htu.1.trans hst.1, htu.2.trans hst.2⟩)
    (fun _ _ _ hmove => links_of_movePhantom hmove) h

theorem links_collisions (s : Play) :
    s.collisions.links = s.links ∧ s.collisions.moviments = s.moviments := by
  unfold collisions
  split_ifs <;> exact ⟨rfl, rfl⟩

/-- So does a move of the pacman. -/
theorem links_of_advance (h : s.advance = some s') :
    s'.links = s.links ∧ s'.moviments = s.moviments := by
  unfold advance eat at h
  dsimp only at h
  split at h
  · exact absurd h (by simp)
  · split at h
    · exact absurd h (by simp)
    · split_ifs at h
      · obtain ⟨matrix, -, rfl⟩ := Option.map_eq_some_iff.mp h
        exact ⟨rfl, rfl⟩
      · obtain rfl := Option.some_inj.mp h
        exact ⟨rfl, rfl⟩

theorem moviments_of_listDel {entry : ListNode} (h : s.listDel entry = some s') :
    s'.moviments = s.moviments := by
  unfold Play.listDel at h
  split at h
  · obtain rfl := Option.some_inj.mp h
    rfl
  · split_ifs at h
    obtain rfl := Option.some_inj.mp h
    rfl

/-- **`is_viable`** deletes the entry, or leaves everything as it is. -/
theorem isViable_eq_some {entry : ListNode} {direction : TDir} {viable : Bool}
    (h : s.isViable entry direction = some (viable, s')) :
    viable = true ∧ s.listDel entry = some s' ∨ viable = false ∧ s' = s := by
  unfold isViable at h
  split_ifs at h
  · obtain ⟨rfl, rfl⟩ := Prod.mk.injEq .. ▸ Option.some_inj.mp h
    exact Or.inr ⟨rfl, rfl⟩
  · dsimp only at h
    split at h
    · exact absurd h (by simp)
    · split_ifs at h
      · obtain ⟨u, hu, heq⟩ := Option.map_eq_some_iff.mp h
        obtain ⟨rfl, rfl⟩ := Prod.mk.injEq .. ▸ heq
        exact Or.inl ⟨rfl, hu⟩
      · obtain ⟨rfl, rfl⟩ := Prod.mk.injEq .. ▸ Option.some_inj.mp h
        exact Or.inr ⟨rfl, rfl⟩

/-- **Serving the first request** deletes its node if it is applied, and
leaves the list alone otherwise. -/
theorem links_of_serveRequest (h : s.serveRequest = some s') :
    s'.moviments = s.moviments
      ∧ (s.applied = none ∧ s'.links = s.links
        ∨ ∃ u, s.applied = some s.moviments ∧ s.listDel .moviments = some u
          ∧ s'.links = u.links) := by
  unfold serveRequest at h
  unfold applied
  cases he : listEmpty s.links .movements with
  | true =>
    rw [he, if_pos rfl] at h
    obtain rfl := Option.some_inj.mp h
    exact ⟨rfl, Or.inl ⟨rfl, rfl⟩⟩
  | false =>
    rw [he, if_neg Bool.false_ne_true] at h
    rw [if_neg Bool.false_ne_true]
    split at h
    · cases hv : s.isViable .moviments s.moviments with
      | none =>
        rw [hv] at h
        exact absurd h (by simp)
      | some p =>
        obtain ⟨viable, u⟩ := p
        rw [hv] at h
        rcases isViable_eq_some hv with ⟨rfl, hdel⟩ | ⟨rfl, rfl⟩
        · have hu := moviments_of_listDel hdel
          obtain ⟨hl, hm⟩ := links_of_advance h
          exact ⟨hm.trans hu, Or.inr ⟨u, rfl, hdel, hl⟩⟩
        · obtain ⟨hl, hm⟩ := links_of_advance h
          exact ⟨hm, Or.inl ⟨rfl, hl⟩⟩
    · exact absurd h (by simp)

/-- **An iteration on the list**: a request is taken, and the first one
served. -/
theorem links_of_step {e : Tick} (h : s.step e = some s') :
    ∃ s₁ s₂, s.takeRequest e.word = some s₁ ∧ s₁.serveRequest = some s₂
      ∧ s'.links = s₂.links ∧ s'.moviments = s₂.moviments := by
  unfold step iteration at h
  split_ifs at h
  obtain ⟨s₁, htake, h⟩ := Option.bind_eq_some_iff.mp h
  obtain ⟨s₂, hserve, h⟩ := Option.bind_eq_some_iff.mp h
  obtain ⟨s₃, hmove, rfl⟩ := Option.map_eq_some_iff.mp h
  obtain ⟨hl, hm⟩ := links_of_movePhantoms hmove
  obtain ⟨hl', hm'⟩ := links_collisions s₃
  exact ⟨s₁, s₂, htake, hserve, hl'.trans hl, hm'.trans hm⟩

end Play

/-! ## What it does to the ledger -/

namespace Ledger

variable {l : Ledger} {s s' : Play}

theorem kept_nil (hr : s.links.IsRing .movements []) (hp : l.pending = []) (hl : l.linked = true) :
    l.Kept s where
  ring := ⟨[], hr, by rw [hp]; rfl⟩
  empty := iff_of_true ((listEmpty_iff hr).mpr rfl) hp
  linked := hl

theorem kept_one (hr : s.links.IsRing .movements [.moviments])
    (hp : l.pending = [s.moviments]) (hl : l.linked = true) : l.Kept s where
  ring := ⟨[.moviments], hr, by rw [hp]; rfl⟩
  empty := by
    rw [listEmpty_iff hr, hp]
    exact iff_of_false (List.cons_ne_nil _ _) (List.cons_ne_nil _ _)
  linked := hl

/-- The list holds one request at most. -/
theorem Kept.ring_cases (h : l.Kept s) :
    l.pending = [] ∧ s.links.IsRing .movements []
      ∨ l.pending = [s.moviments] ∧ s.links.IsRing .movements [.moviments] := by
  obtain ⟨nodes, hr, hp⟩ := h.ring
  rcases eq_of_isRing hr with rfl | rfl
  · exact Or.inl ⟨List.map_eq_nil_iff.mp hp.symm, hr⟩
  · obtain ⟨d, hd, hs⟩ := List.map_eq_singleton_iff.mp hp.symm
    rw [Option.some_inj.mp hs] at hd
    exact Or.inr ⟨hd, hr⟩

/-- Only the list and the direction of `moviments` matter. -/
theorem Kept.congr (h : l.Kept s) (hl : s'.links = s.links) (hm : s'.moviments = s.moviments) :
    l.Kept s' := by
  rcases h.ring_cases with ⟨hp, hr⟩ | ⟨hp, hr⟩
  · exact kept_nil (hl ▸ hr) hp h.linked
  · exact kept_one (hl ▸ hr) (hm ▸ hp) h.linked

/-- **A direction taken while none is pending** is linked. -/
theorem Kept.take (h : l.Kept s) {word : TDir} (hw : word ≠ .null → l.pending = [])
    (ht : s.takeRequest word = some s') : (l.take word).Kept s' := by
  unfold Play.takeRequest at ht
  unfold Ledger.take
  by_cases hnull : word ≠ .null
  · rw [if_pos hnull] at ht ⊢
    rcases h.ring_cases with ⟨hp, hr⟩ | ⟨hp, -⟩
    · have hr' : Links.IsRing (Function.update s.links .moviments ⟨none, none⟩) .movements [] := by
        refine hr.congr fun y hy => ?_
        rw [List.mem_singleton.mp hy]
        rfl
      obtain ⟨links, hadd, hring, -⟩ := listAddTail_spec hr' (e := .moviments) (by decide)
      rw [hadd] at ht
      obtain rfl := Option.some_inj.mp ht
      exact kept_one hring (by rw [hw hnull]; rfl) h.linked
    · rw [hw hnull] at hp
      exact absurd hp (by simp)
  · rw [if_neg hnull] at ht ⊢
    exact Option.some_inj.mp ht ▸ h

/-- **Serving the first request** takes it out of the list exactly if it is
applied. -/
theorem Kept.serve (h : l.Kept s) (hs : s.serveRequest = some s') : (l.serve s).Kept s' := by
  obtain ⟨hm, hcases⟩ := Play.links_of_serveRequest hs
  unfold Ledger.serve
  rcases hcases with ⟨happ, hl⟩ | ⟨u, happ, hdel, hl⟩
  · rw [happ]
    exact h.congr hl hm
  · rw [happ]
    rcases h.ring_cases with ⟨-, hr⟩ | ⟨hp, hr⟩
    · unfold Play.applied at happ
      rw [(listEmpty_iff hr).mpr rfl] at happ
      exact absurd happ (by simp)
    · have hsplit : s.links.IsRing .movements ([] ++ .moviments :: []) := hr
      obtain ⟨links, hlinks, hring, -⟩ := listDel_spec hsplit
      unfold Play.listDel at hdel
      rw [hlinks] at hdel
      obtain rfl := Option.some_inj.mp hdel
      refine kept_nil (by rw [hl]; exact hring) ?_ ?_
      · show l.pending.erase s.moviments = []
        rw [hp, List.erase_cons_head]
      · show (l.linked && listLinked s.links .moviments) = true
        rw [h.linked, (listLinked_iff _ _).mpr (hr.isLinked List.mem_cons_self)]
        rfl

/-- A node linked to itself, or not at all, while the head leads to it. -/
def Tangled (links : Links ListNode) : Prop :=
  links .movements = ⟨some .moviments, some .moviments⟩
    ∧ (links .moviments = ⟨some .moviments, some .moviments⟩
      ∨ links .moviments = ⟨none, none⟩)

theorem Tangled.not_kept (h : Tangled s.links) (l : Ledger) : ¬ l.Kept s := by
  rintro ⟨⟨nodes, hr, -⟩, -, -⟩
  refine not_isRing (by rw [h.1]) ?_ nodes hr
  rcases h.2 with hn | hn <;>
  · rw [hn]
    decide

/-- **A direction taken while one is pending** links the node to itself. -/
theorem Kept.tangled (h : l.Kept s) {word : TDir} (hw : word ≠ .null) (hp : l.pending ≠ [])
    (ht : s.takeRequest word = some s') : Tangled s'.links := by
  rcases h.ring_cases with ⟨hnil, -⟩ | ⟨-, hr⟩
  · exact absurd hnil hp
  · have hhead : s.links .movements = ⟨some .moviments, some .moviments⟩ := by
      obtain ⟨⟨hnext, -⟩, -, hprev⟩ := hr.seg
      exact congrArg₂ ListHead.mk hnext hprev
    unfold Play.takeRequest at ht
    rw [if_pos hw] at ht
    obtain ⟨links, hadd, rfl⟩ := Option.map_eq_some_iff.mp ht
    unfold listAddTail at hadd
    rw [Function.update_of_ne (by decide), hhead] at hadd
    obtain rfl := Option.some_inj.mp hadd
    refine ⟨?_, Or.inl ?_⟩ <;>
      simp [listAddBetween, Links.setNext_apply, Links.setPrev_apply, hhead]

/-- Once the node is linked to itself, serving it does not mend the list. -/
theorem Tangled.serve (h : Tangled s.links) (hs : s.serveRequest = some s') :
    Tangled s'.links := by
  obtain ⟨-, ⟨-, hl⟩ | ⟨u, -, hdel, hl⟩⟩ := Play.links_of_serveRequest hs
  · rwa [hl]
  · unfold Play.listDel ZeOS.listDel at hdel
    rw [hl]
    rcases h.2 with hn | hn
    · rw [hn] at hdel
      obtain rfl := Option.some_inj.mp hdel
      exact ⟨h.1, Or.inr rfl⟩
    · rw [hn] at hdel
      dsimp only at hdel
      rw [if_pos rfl] at hdel
      obtain rfl := Option.some_inj.mp hdel
      exact h

/-- **One iteration** keeps the list exactly if it takes no direction while
one is pending. -/
theorem Kept.step (h : l.Kept s) {e : Tick} (hs : s.step e = some s') :
    (l.after s e).Kept s' ↔ (e.word ≠ .null → listEmpty s.links .movements = true) := by
  obtain ⟨s₁, s₂, htake, hserve, hl, hm⟩ := Play.links_of_step hs
  unfold Ledger.after
  rw [htake, h.empty]
  dsimp only
  constructor
  · intro hkept hw
    by_contra hp
    have htangled := (h.tangled hw hp htake).serve hserve
    exact Tangled.not_kept (hl ▸ htangled) _ hkept
  · exact fun hw => ((h.take hw htake).serve hserve).congr hl hm

/-- **A key blocked by a wall and then another one** spoil the list: in the
maze of `init_game` the cell above the pacman is a wall, and the direction
taken next is linked to itself. -/
theorem not_kept_blocked : initMatrix.HasBorder ∧ ∃ p,
    Run step (fun _ _ => True) (initGame initMatrix Play.zeroed, ⟨[], true⟩)
        [⟨.up, fun _ => 0⟩, ⟨.right, fun _ => 0⟩] p ∧ ¬ p.2.Kept p.1 := by
  have hplaced := Play.placed_initGame Play.hasBorder_initMatrix Play.startsOpen_initMatrix
    Play.zeroed
  have hfirst : ((initGame initMatrix Play.zeroed).step ⟨.up, fun _ => 0⟩).map
      (fun s => (s.running, listEmpty s.links .movements)) = some (true, false) := by
    decide +kernel
  have hkept : Kept ⟨[], true⟩ (initGame initMatrix Play.zeroed) :=
    kept_nil (isRing_initListHead _ _) rfl rfl
  generalize initGame initMatrix Play.zeroed = s₀ at hplaced hfirst hkept ⊢
  obtain ⟨s, hs, hboth⟩ := Option.map_eq_some_iff.mp hfirst
  obtain ⟨hgo, he⟩ := Prod.mk.injEq .. ▸ hboth
  have hkept' := (hkept.step hs).mpr fun _ => hkept.empty.mpr rfl
  obtain ⟨s', hs', -⟩ := (hplaced.step hs).iteration ⟨.right, fun _ => 0⟩
  replace hs' : s.step ⟨.right, fun _ => 0⟩ = some s' := (if_pos hgo).trans hs'
  have hfst : step (s₀, ⟨[], true⟩) ⟨.up, fun _ => 0⟩
      = some (s, Ledger.after ⟨[], true⟩ s₀ ⟨.up, fun _ => 0⟩) :=
    Option.map_eq_some_iff.mpr ⟨s, hs, rfl⟩
  have hsnd : step (s, Ledger.after ⟨[], true⟩ s₀ ⟨.up, fun _ => 0⟩) ⟨.right, fun _ => 0⟩
      = some (s', _) := Option.map_eq_some_iff.mpr ⟨s', hs', rfl⟩
  refine ⟨Play.hasBorder_initMatrix, _, (Run.single trivial hfst).append
    (Run.single trivial hsnd), fun hbad => ?_⟩
  have hempty := (hkept'.step hs').mp hbad (by decide)
  rw [he] at hempty
  exact absurd hempty Bool.false_ne_true

/-- **The list of requests is kept in a run exactly if each direction is
taken when none is pending.** Whatever the maze, the directions and the
times they come at: after every iteration `movements` is a ring of the
pending requests, each once and in order, empty exactly if there is none,
and every `list_del` has met a linked node – if and only if no direction is
taken while an earlier one is still blocked by a wall. -/
theorem kept_iff (matrix : Matrix) (s₀ : Play) {ticks : List Tick} {p : Play × Ledger}
    (hrun : Run step (fun _ _ => True) (initGame matrix s₀, ⟨[], true⟩) ticks p) :
    (∀ before later q, ticks = before ++ later →
        Run step (fun _ _ => True) (initGame matrix s₀, ⟨[], true⟩) before q → q.2.Kept q.1)
      ↔ Run step (fun q e => True ∧
          (e.word ≠ .null → listEmpty q.1.links .movements = true))
        (initGame matrix s₀, ⟨[], true⟩) ticks p := by
  refine hrun.always_iff (I := fun _ => True) (J := fun q => q.2.Kept q.1)
    (fun _ _ _ _ _ _ => trivial) (fun q e q' _ hq _ hst => ?_) trivial ?_
  · obtain ⟨s', hs', rfl⟩ := Option.map_eq_some_iff.mp hst
    exact hq.step hs'
  · exact kept_nil (isRing_initListHead _ _) rfl rfl

/-- One request, in the maze of `init_game`. -/
theorem kept_iff_initMatrix : ∃ p,
    Run step (fun _ _ => True) (initGame initMatrix Play.zeroed, ⟨[], true⟩)
        [⟨.right, fun _ => 0⟩] p
      ∧ ∀ before later q, [⟨.right, fun _ => 0⟩] = before ++ later →
        Run step (fun _ _ => True) (initGame initMatrix Play.zeroed, ⟨[], true⟩) before q →
          q.2.Kept q.1 := by
  obtain ⟨s, hs, -⟩ := (Play.placed_initGame Play.hasBorder_initMatrix
    Play.startsOpen_initMatrix Play.zeroed).iteration ⟨.right, fun _ => 0⟩
  have hgo : (initGame initMatrix Play.zeroed).running = true :=
    Play.running_initGame (i := 1) (j := 1) (by decide) (s := Play.zeroed) le_rfl
  have hst : step (initGame initMatrix Play.zeroed, ⟨[], true⟩) ⟨.right, fun _ => 0⟩ = some (s, _) :=
    Option.map_eq_some_iff.mpr ⟨s, (if_pos hgo).trans hs, rfl⟩
  refine ⟨_, Run.single trivial hst, (kept_iff initMatrix Play.zeroed (Run.single trivial hst)).mpr
    (Run.single ⟨trivial, fun _ => ?_⟩ hst)⟩
  exact (listEmpty_iff (isRing_initListHead _ _)).mpr rfl

end Ledger

end ZeOS.Game
