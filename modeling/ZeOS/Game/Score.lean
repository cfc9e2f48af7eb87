import ZeOS.Game.Movements

/-!
# The score

Ten points are given for each cell of food eaten, and the loop goes on until
there are as many as `init_game` counted food for. What carries this is that
no part of an iteration changes `points + 10 * food`: the pacman eats the
cell it leaves, a phantom eats nothing, and `restart` puts the units back
without a look at the maze.

An iteration is taken here with any direction pending, or none. The list of
requests is then a ring, as it is in the loop until a direction comes while
another one waits.
-/

namespace ZeOS.Game

namespace Matrix

variable {m m' m'' : Matrix}

/-- Food may have been eaten, and that is all. -/
def Grazed (m m' : Matrix) : Prop :=
  ∀ i j, m' i j = m i j ∨ m i j = .food ∧ m' i j = .empty

theorem Grazed.refl (m : Matrix) : m.Grazed m := fun _ _ => Or.inl rfl

theorem Grazed.trans (h : m.Grazed m') (h' : m'.Grazed m'') : m.Grazed m'' := by
  intro i j
  rcases h i j with heq | ⟨hfood, hempty⟩
  · rw [← heq]
    exact h' i j
  · rcases h' i j with heq' | ⟨hfood', -⟩
    · exact Or.inr ⟨hfood, heq'.trans hempty⟩
    · rw [hempty] at hfood'
      exact absurd hfood' (by decide)

/-- **A cell eaten** is one cell of food less, and no other cell changes. -/
theorem write_empty {x y : ℤ} (hread : m.read x y = some .food) :
    ∃ m', m.write x y .empty = some m' ∧ m.Grazed m' ∧ foodCount m' + 1 = foodCount m := by
  have hin := inRange_of_read hread
  rw [read_of_inRange hin] at hread
  have hfood : m hin.row hin.column = .food := Option.some_inj.mp hread
  refine ⟨_, dif_pos hin, fun i j => ?_, ?_⟩
  · by_cases hi : i = hin.row
    · by_cases hj : j = hin.column
      · rw [hi, hj, Function.update_self, Function.update_self]
        exact Or.inr ⟨hfood, rfl⟩
      · rw [hi, Function.update_self, Function.update_of_ne hj]
        exact Or.inl rfl
    · rw [Function.update_of_ne hi]
      exact Or.inl rfl
  · have hmem : (hin.row, hin.column)
        ∈ Finset.univ.filter (fun c : Fin rows × Fin columns => m c.1 c.2 = .food) :=
      Finset.mem_filter.mpr ⟨Finset.mem_univ _, hfood⟩
    unfold foodCount
    rw [← Finset.card_erase_add_one hmem]
    refine congrArg (· + 1) (congrArg Finset.card (Finset.ext fun c => ?_))
    obtain ⟨i, j⟩ := c
    rw [Finset.mem_erase, Finset.mem_filter, Finset.mem_filter, Ne, Prod.mk.injEq]
    by_cases hi : i = hin.row
    · by_cases hj : j = hin.column
      · rw [hi, hj, Function.update_self, Function.update_self]
        simp
      · rw [hi, Function.update_self, Function.update_of_ne hj]
        simp [hj]
    · rw [Function.update_of_ne hi]
      simp [hi]

end Matrix

namespace Play

variable {s s' s'' : Play}

/-- **What a part of an iteration does to the score**: the points given are
those of the food that is gone. -/
structure Scores (s s' : Play) : Prop where
  total : s'.total = s.total
  grazed : s.game.matrix.Grazed s'.game.matrix
  points : s'.game.points + 10 * foodCount s'.game.matrix
    = s.game.points + 10 * foodCount s.game.matrix

/-- What neither gives points nor touches the maze. -/
theorem Scores.of_same (ht : s'.total = s.total) (hp : s'.game.points = s.game.points)
    (hm : s'.game.matrix = s.game.matrix) : s.Scores s' where
  total := ht
  grazed := by
    rw [hm]
    exact Matrix.Grazed.refl _
  points := by rw [hp, hm]

theorem Scores.refl (s : Play) : s.Scores s := of_same rfl rfl rfl

theorem Scores.trans (h : s.Scores s') (h' : s'.Scores s'') : s.Scores s'' where
  total := h'.total.trans h.total
  grazed := h.grazed.trans h'.grazed
  points := h'.points.trans h.points

/-! ## The pacman -/

/-- **The food on a cell** becomes ten points. -/
theorem Scores.eat {x y : ℤ} (h : s.eat x y = some s') : s.Scores s' := by
  unfold Play.eat at h
  split at h
  · exact absurd h (by simp)
  · rename_i cell hread
    split_ifs at h with hfood
    · rw [hfood] at hread
      obtain ⟨m', hwrite, hgrazed, hcount⟩ := Matrix.write_empty hread
      rw [hwrite] at h
      obtain rfl := Option.some_inj.mp h
      refine ⟨rfl, hgrazed, ?_⟩
      show s.game.points + 10 + 10 * (foodCount m' : ℤ) = _
      rw [← hcount]
      push_cast
      omega
    · exact Option.some_inj.mp h ▸ Scores.refl s

theorem Scores.advance (h : s.advance = some s') : s.Scores s' := by
  unfold Play.advance at h
  dsimp only at h
  split at h
  · exact absurd h (by simp)
  · rename_i moved _
    have hmoved : s.Scores { s with game := { s.game with pacman := moved } } :=
      Scores.of_same rfl rfl rfl
    exact hmoved.trans (Scores.eat h)

/-- The first request, if there is any, has its pointers set. -/
def FirstLinked (s : Play) : Prop :=
  listEmpty s.links .movements = false → s.links .moviments ≠ ⟨none, none⟩

/-- **`list_del` on a node with pointers** stores nothing in the record of
the game. -/
theorem Scores.listDel (hne : s.links .moviments ≠ ⟨none, none⟩)
    (h : s.listDel .moviments = some s') : s.Scores s' := by
  unfold Play.listDel at h
  split at h
  · obtain rfl := Option.some_inj.mp h
    exact Scores.of_same rfl rfl rfl
  · rw [if_neg hne] at h
    exact absurd h (by simp)

theorem Scores.serveRequest (hl : s.FirstLinked) (h : s.serveRequest = some s') :
    s.Scores s' := by
  unfold Play.serveRequest at h
  cases he : listEmpty s.links .movements with
  | true =>
    rw [he, if_pos rfl] at h
    exact Option.some_inj.mp h ▸ Scores.refl s
  | false =>
    rw [he, if_neg Bool.false_ne_true] at h
    split at h
    · cases hv : s.isViable .moviments s.moviments with
      | none =>
        rw [hv] at h
        exact absurd h (by simp)
      | some p =>
        obtain ⟨viable, u⟩ := p
        rw [hv] at h
        rcases isViable_eq_some hv with ⟨rfl, hdel⟩ | ⟨rfl, rfl⟩
        · -- the pacman turns before it moves
          have hturn : u.Scores
              { u with game := { u.game with pacman := { u.game.pacman with dir := u.moviments } } } :=
            Scores.of_same rfl rfl rfl
          exact ((Scores.listDel (hl he) hdel).trans hturn).trans (Scores.advance h)
        · exact Scores.advance h
    · exact absurd h (by simp)

/-- Taking a direction sets the pointers of the node it is put in. -/
theorem FirstLinked.takeRequest (hl : s.FirstLinked) {word : TDir}
    (h : s.takeRequest word = some s') : s'.FirstLinked ∧ s.Scores s' := by
  unfold Play.takeRequest at h
  split_ifs at h with hw
  · obtain ⟨links, hadd, rfl⟩ := Option.map_eq_some_iff.mp h
    refine ⟨fun _ hnull => ?_, Scores.of_same rfl rfl rfl⟩
    unfold listAddTail at hadd
    split at hadd
    · obtain rfl := Option.some_inj.mp hadd
      have hprev := (prev_listAddBetween _ _ _ _).symm.trans (congrArg ListHead.prev hnull)
      exact absurd hprev (by simp)
    · exact absurd hadd (by simp)
  · obtain rfl := Option.some_inj.mp h
    exact ⟨hl, Scores.refl s⟩

/-! ## The phantoms -/

/-- A phantom that follows `bfs` changes neither the maze nor the points. -/
theorem chase_eq_some {game game' : TGame} {i : Fin nphantom} (h : chase game i = some game') :
    game'.points = game.points ∧ game'.matrix = game.matrix := by
  unfold chase at h
  split at h
  · exact absurd h (by simp)
  · obtain ⟨moved, -, rfl⟩ := Option.map_eq_some_iff.mp h
    exact ⟨rfl, rfl⟩

theorem phantomMove_eq_some {game game' : TGame} {random past : ℤ} {i : Fin nphantom}
    (h : phantomMove game random i past = some game') :
    game'.points = game.points ∧ game'.matrix = game.matrix := by
  rcases phantomMove_cases game random i past with hm | ⟨dir, hm⟩ | hm
  · rw [Option.some_inj.mp (h.symm.trans hm)]
    exact ⟨rfl, rfl⟩
  · rw [Option.some_inj.mp (h.symm.trans hm)]
    exact ⟨rfl, rfl⟩
  · exact chase_eq_some (hm.symm.trans h)

theorem Scores.movePhantom {past : Fin nphantom → ℤ} {i : Fin nphantom}
    (h : s.movePhantom past i = some s') : s.Scores s' := by
  unfold Play.movePhantom at h
  split_ifs at h
  · obtain ⟨game, hgame, rfl⟩ := Option.map_eq_some_iff.mp h
    obtain ⟨hpoints, hmatrix⟩ := phantomMove_eq_some hgame
    exact Scores.of_same rfl hpoints hmatrix
  · exact Option.some_inj.mp h ▸ Scores.refl s

theorem Scores.movePhantoms {past : Fin nphantom → ℤ} (h : s.movePhantoms past = some s') :
    s.Scores s' :=
  movePhantoms_induct (R := Scores) Scores.refl (fun _ _ _ hst htu => hst.trans htu)
    (fun _ _ _ hmove => Scores.movePhantom hmove) h

/-- `restart` puts the units back, not the food. -/
theorem Scores.collisions (s : Play) : s.Scores s.collisions := by
  unfold Play.collisions
  split_ifs
  · exact Scores.of_same rfl rfl rfl
  · exact Scores.refl s

/-! ## An iteration -/

/-- **An iteration** whose first request has its pointers gives ten points
for each cell of food it takes away. -/
theorem FirstLinked.step (hl : s.FirstLinked) {e : Tick} (h : s.step e = some s') :
    s.Scores s' := by
  unfold Play.step iteration at h
  split_ifs at h
  obtain ⟨s₁, htake, h⟩ := Option.bind_eq_some_iff.mp h
  obtain ⟨s₂, hserve, h⟩ := Option.bind_eq_some_iff.mp h
  obtain ⟨s₃, hmove, rfl⟩ := Option.map_eq_some_iff.mp h
  obtain ⟨hl₁, hscore⟩ := hl.takeRequest htake
  exact ((hscore.trans (Scores.serveRequest hl₁ hserve)).trans (Scores.movePhantoms hmove)).trans
    (Scores.collisions s₃)

/-- The list with a direction pending, or with none. -/
def withPending (s : Play) : Option TDir → Play
  | none => { s with links := initListHead s.links .movements }
  | some direction =>
    { s with
      links := fun
        | .movements => ⟨some .moviments, some .moviments⟩
        | .moviments => ⟨some .movements, some .movements⟩
      moviments := direction }

/-- An iteration that finds any direction pending, or none, and any value in
`random`. -/
def stepPending (s : Play) (e : Option TDir × ℤ × Tick) : Option Play :=
  (s.withPending e.1).stepFrom e.2

theorem firstLinked_withPending (s : Play) (pending : Option TDir) :
    (s.withPending pending).FirstLinked := by
  intro he
  cases pending with
  | none =>
    have hempty : listEmpty (initListHead s.links .movements) .movements = true :=
      (listEmpty_iff (isRing_initListHead s.links .movements)).mpr rfl
    rw [withPending, hempty] at he
    exact absurd he (by decide)
  | some direction => exact fun hnull => by simp [withPending] at hnull

theorem Scores.stepPending {e : Option TDir × ℤ × Tick} (h : s.stepPending e = some s') :
    s.Scores s' := by
  have hsame : s.Scores ((s.withPending e.1).withRandom e.2.1) := by
    cases e.1 <;> exact Scores.of_same rfl rfl rfl
  have hl : ((s.withPending e.1).withRandom e.2.1).FirstLinked := firstLinked_withPending s e.1
  exact hsame.trans (hl.step h)

/-- **A list that is kept** is the empty one, or the one with its request
pending. -/
theorem exists_withPending {l : Ledger} (h : l.Kept s) :
    ∃ pending, s.withPending pending = s := by
  rcases h.ring_cases with ⟨-, hr⟩ | ⟨-, hr⟩
  · obtain ⟨hnext, hprev⟩ := hr.seg
    have hlinks : initListHead s.links .movements = s.links := by
      funext n
      cases n with
      | movements =>
        simp only [initListHead, Links.setNext_apply, Links.setPrev_apply, if_true]
        exact (congrArg₂ ListHead.mk hnext hprev).symm
      | moviments => exact initListHead_of_ne s.links (by decide)
    exact ⟨none, by rw [withPending, hlinks]⟩
  · obtain ⟨⟨hnext, hprev⟩, hnext', hprev'⟩ := hr.seg
    refine ⟨some s.moviments, ?_⟩
    have hlinks : (s.withPending (some s.moviments)).links = s.links := by
      funext n
      cases n with
      | movements => exact (congrArg₂ ListHead.mk hnext hprev').symm
      | moviments => exact (congrArg₂ ListHead.mk hnext' hprev).symm
    rw [withPending] at hlinks ⊢
    dsimp only at hlinks
    rw [hlinks]

/-- **The loop itself**, as long as each direction comes while none waits,
runs in this way. -/
theorem exists_run_stepPending {p q : Play × Ledger} {ticks : List Tick} (hkept : p.2.Kept p.1)
    (hrun : Run Ledger.step (fun q e => e.word ≠ .null → listEmpty q.1.links .movements = true)
      p ticks q) :
    q.2.Kept q.1 ∧ ∃ events, Run stepPending (fun _ _ => True) p.1 events q.1
      ∧ events.map (fun e => e.2.2) = ticks := by
  induction hrun with
  | nil => exact ⟨hkept, [], Run.nil _, rfl⟩
  | @snoc t u ticks e _ hfree hst ih =>
    obtain ⟨hkept', events, hevents, hmap⟩ := ih
    obtain ⟨s', hs', rfl⟩ := Option.map_eq_some_iff.mp hst
    obtain ⟨pending, hpending⟩ := exists_withPending hkept'
    have hstep : t.1.stepPending (pending, t.1.random, e) = some s' := by
      unfold stepPending
      dsimp only
      rw [hpending]
      exact hs'
    refine ⟨(hkept'.step hs').mpr hfree, _, hevents.snoc trivial hstep, ?_⟩
    rw [List.map_append, hmap, List.map_singleton]

/-- **The points and the food left** make up the total, in any state a run
from `init_game` may lead to. -/
theorem Scores.accounted {matrix : Matrix} {s₀ : Play} (hs₀ : s₀.total = 0)
    (h : (initGame matrix s₀).Scores s) :
    s.total = foodCount matrix
      ∧ s.game.points + 10 * foodCount s.game.matrix = 10 * s.total := by
  have htotal : s.total = foodCount matrix := by
    refine h.total.trans ?_
    show s₀.total + (foodCount matrix : ℤ) = foodCount matrix
    rw [hs₀, Int.zero_add]
  refine ⟨htotal, h.points.trans ?_⟩
  rw [htotal]
  exact Int.zero_add _

/-- **The score of the game.** In every maze, whatever is pending at each
iteration, whatever the phantoms do and as often as the pacman is caught:
the points and ten times the food left are ten times the total, cells of
food have become empty cells and no other has changed, and the loop goes on
exactly while lives and food are left. -/
theorem score_accounted (matrix : Matrix) {s₀ : Play} (hs₀ : s₀.total = 0)
    {events : List (Option TDir × ℤ × Tick)}
    (hrun : Run stepPending (fun _ _ => True) (initGame matrix s₀) events s) :
    s.game.points + 10 * foodCount s.game.matrix = 10 * s.total
      ∧ matrix.Grazed s.game.matrix
      ∧ (∀ e s', s.stepPending e = some s' → s.game.matrix.Grazed s'.game.matrix)
      ∧ (s.running = true ↔ 0 < s.lives ∧ ∃ i j, s.game.matrix i j = .food) := by
  have hs : (initGame matrix s₀).Scores s :=
    hrun.invariant (I := fun u => (initGame matrix s₀).Scores u)
      (fun u e u' hu _ hst => hu.trans (Scores.stepPending hst)) (Scores.refl _)
  obtain ⟨-, hpoints⟩ := hs.accounted hs₀
  refine ⟨hpoints, hs.grazed, fun e s' h => (Scores.stepPending h).grazed, ?_⟩
  have hfood : 0 < foodCount s.game.matrix ↔ ∃ i j, s.game.matrix i j = .food := by
    unfold foodCount
    rw [Finset.card_pos]
    constructor
    · rintro ⟨⟨i, j⟩, hc⟩
      exact ⟨i, j, (Finset.mem_filter.mp hc).2⟩
    · rintro ⟨i, j, hc⟩
      exact ⟨(i, j), Finset.mem_filter.mpr ⟨Finset.mem_univ _, hc⟩⟩
  unfold running
  rw [decide_eq_true_iff, ← hfood]
  refine and_congr_right fun _ => ?_
  omega

/-- A request in the maze of `init_game`. -/
theorem score_accounted_initMatrix : zeroed.total = 0 ∧ ∃ s,
    Run stepPending (fun _ _ => True) (initGame initMatrix zeroed)
        [(some .right, 0, ⟨.null, fun _ => 0⟩)] s
      ∧ s.game.points + 10 * foodCount s.game.matrix = 10 * s.total
      ∧ initMatrix.Grazed s.game.matrix
      ∧ (∀ e s', s.stepPending e = some s' → s.game.matrix.Grazed s'.game.matrix)
      ∧ (s.running = true ↔ 0 < s.lives ∧ ∃ i j, s.game.matrix i j = .food) := by
  have hplaced := placed_initGame hasBorder_initMatrix startsOpen_initMatrix zeroed
  have hpending : (((initGame initMatrix zeroed).withPending (some .right)).withRandom 0).Placed :=
    hplaced.of_same rfl rfl rfl (Or.inr ⟨rfl, Or.inl rfl⟩)
  obtain ⟨s, hit, -⟩ := hpending.iteration ⟨.null, fun _ => 0⟩
  have hgo : (((initGame initMatrix zeroed).withPending (some .right)).withRandom 0).running
      = true := running_initGame (i := 1) (j := 1) (by decide) (s := zeroed) le_rfl
  have hrun : Run stepPending (fun _ _ => True) (initGame initMatrix zeroed)
      [(some .right, 0, ⟨.null, fun _ => 0⟩)] s := by
    refine Run.single trivial ?_
    unfold stepPending stepFrom step
    rw [if_pos hgo, hit]
  exact ⟨rfl, s, hrun, score_accounted initMatrix rfl hrun⟩

end Play

end ZeOS.Game
