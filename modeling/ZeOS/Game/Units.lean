import ZeOS.Run
import ZeOS.Game.Play

/-!
# The units stay in the maze

In a maze with a border of walls the pacman and the phantoms are always on
cells of the board that are not walls. The pacman looks before it moves. A
phantom does not: it goes where `bfs` tells it, from the cell it is on, and
what `bfs` returns is a step to a cell it has found open.

Neither depends on the list of requests, which may be in any of the states
the loop leaves it in; what is known of its pointers here is that each
`list_del` meets either two nodes or two null pointers.
-/

namespace ZeOS.Game

namespace Matrix

variable {m m' : Matrix}

/-- The border is of walls. -/
def HasBorder (m : Matrix) : Prop :=
  ∀ (i : Fin rows) (j : Fin columns), (i = 0 ∨ i = 19 ∨ j = 0 ∨ j = 49) → m i j = .wall

/-- The cells the units start on are not walls. -/
def StartsOpen (m : Matrix) : Prop :=
  m.Open 1 1 ∧ ∀ i, m.Open (phantomStart i).2 (phantomStart i).1

instance (m : Matrix) : Decidable m.HasBorder :=
  inferInstanceAs (Decidable (∀ (_ : Fin rows) (_ : Fin columns), _ → _))

/-- No open cell is at the border. -/
def Inner (m : Matrix) : Prop :=
  ∀ x y, m.Open x y → 0 < x ∧ x + 1 < rows ∧ 0 < y ∧ y + 1 < columns

/-- The same cells are open. -/
def SameOpen (m m' : Matrix) : Prop := ∀ x y, m'.Open x y ↔ m.Open x y

theorem HasBorder.inner (hb : m.HasBorder) : m.Inner := by
  rintro x y ⟨cell, hread, hcell⟩
  have hin := inRange_of_read hread
  rw [read_of_inRange hin] at hread
  have hnot : ¬ (hin.row = 0 ∨ hin.row = 19 ∨ hin.column = 0 ∨ hin.column = 49) := by
    intro hp
    rw [hb _ _ hp] at hread
    exact hcell (Option.some_inj.mp hread).symm
  simp only [InRange.row, InRange.column, Fin.ext_iff] at hnot
  obtain ⟨hx, hx', hy, hy'⟩ := hin
  have hrow : ((0 : Fin rows) : ℕ) = 0 ∧ ((19 : Fin rows) : ℕ) = 19 := by decide
  have hcol : ((0 : Fin columns) : ℕ) = 0 ∧ ((49 : Fin columns) : ℕ) = 49 := by decide
  rw [hrow.1, hrow.2, hcol.1, hcol.2] at hnot
  simp only [rows, columns, Nat.cast_ofNat] at hx' hy' ⊢
  omega

/-- Next to an open cell the board goes on. -/
theorem Inner.inRange_ahead (hi : m.Inner) {x y : ℤ} (ho : m.Open x y) (d : TDir) :
    InRange (d.ahead x y).1 (d.ahead x y).2 := by
  obtain ⟨hx, hx', hy, hy'⟩ := hi x y ho
  unfold InRange
  cases d <;> simp only [TDir.ahead] <;> omega

/-- **Food eaten leaves the walls.** -/
theorem sameOpen_of_write {x y : ℤ} {cell : TCell} (ho : m.Open x y) (hc : cell ≠ .wall)
    (hw : m.write x y cell = some m') : m.SameOpen m' := by
  intro x' y'
  obtain ⟨m₁, hw₁, hread⟩ := read_write (m := m) ho.inRange x' y' cell
  obtain rfl : m' = m₁ := Option.some_inj.mp (hw.symm.trans hw₁)
  unfold Open
  rw [hread]
  by_cases heq : x' = x ∧ y' = y
  · rw [if_pos heq, heq.1, heq.2]
    exact iff_of_true ⟨cell, rfl, hc⟩ ho
  · rw [if_neg heq]

end Matrix

/-- `movements` is empty, or it holds `moviments` with pointers that lead to
the head, to itself or nowhere. -/
def Pointers (links : Links ListNode) : Prop :=
  links .movements = ⟨some .movements, some .movements⟩
    ∨ links .movements = ⟨some .moviments, some .moviments⟩
      ∧ (links .moviments = ⟨some .movements, some .movements⟩
        ∨ links .moviments = ⟨some .moviments, some .moviments⟩
        ∨ links .moviments = ⟨none, none⟩)

/-- The units are on open cells: the pacman in row `x` and column `y`, a
phantom in column `x` and row `y`. -/
structure TGame.OnBoard (game : TGame) : Prop where
  pacman : game.matrix.Open game.pacman.x game.pacman.y
  phantom : ∀ i, game.matrix.Open (game.phantom i).y (game.phantom i).x

/-- **The invariant of the loop.** -/
structure Play.Placed (s : Play) : Prop where
  onBoard : s.game.OnBoard
  inner : s.game.matrix.Inner
  starts : s.game.matrix.StartsOpen
  pacmanType : s.game.pacman.type = .pacman
  phantomType : ∀ i, (s.game.phantom i).type = .phantom
  pointers : Pointers s.links

namespace Play

variable {s s' : Play}

/-! ## The pacman -/

/-- What a step that moves no unit changes. -/
theorem Placed.of_same (hs : s.Placed) (hm : s'.game.matrix = s.game.matrix)
    (hp : s'.game.pacman = s.game.pacman) (hf : s'.game.phantom = s.game.phantom)
    (hl : Pointers s'.links) : s'.Placed where
  onBoard := by
    refine ⟨?_, fun i => ?_⟩
    · rw [hm, hp]
      exact hs.onBoard.pacman
    · rw [hm, hf]
      exact hs.onBoard.phantom i
  inner := hm ▸ hs.inner
  starts := hm ▸ hs.starts
  pacmanType := hp ▸ hs.pacmanType
  phantomType := hf ▸ hs.phantomType
  pointers := hl

/-- **A request is taken** in any state of the list. -/
theorem Placed.takeRequest (hs : s.Placed) (word : TDir) :
    ∃ s', s.takeRequest word = some s' ∧ s'.Placed := by
  unfold Play.takeRequest
  by_cases hw : word ≠ .null
  · rw [if_pos hw]
    obtain ⟨links, hadd, hl⟩ : ∃ links,
        listAddTail (Function.update s.links .moviments ⟨none, none⟩) .moviments .movements
          = some links ∧ Pointers links := by
      unfold listAddTail
      rw [Function.update_of_ne (by decide)]
      rcases hs.pointers with hm | ⟨hm, -⟩
      · rw [hm]
        refine ⟨_, rfl, Or.inr ⟨?_, Or.inl ?_⟩⟩ <;> rfl
      · rw [hm]
        refine ⟨_, rfl, Or.inr ⟨?_, Or.inr (Or.inl ?_)⟩⟩ <;>
          simp [listAddBetween, Links.setNext_apply, Links.setPrev_apply, hm]
    rw [hadd]
    exact ⟨_, rfl, hs.of_same rfl rfl rfl hl⟩
  · exact ⟨s, if_neg hw, hs⟩

/-- **`list_del` on the first request** reaches no node that is not there. -/
theorem Placed.listDel (hs : s.Placed) (he : listEmpty s.links .movements = false) :
    listFirst s.links .movements = some .moviments
      ∧ ∃ s', s.listDel .moviments = some s' ∧ s'.Placed := by
  unfold Play.listDel ZeOS.listDel
  unfold listEmpty at he
  rcases hs.pointers with hm | ⟨hm, h | h | h⟩
  · rw [hm] at he
    exact absurd he (by decide)
  all_goals
    refine ⟨by rw [listFirst, hm], ?_⟩
    rw [h]
  · refine ⟨_, rfl, hs.of_same rfl rfl rfl (Or.inl ?_)⟩
    rfl
  · refine ⟨_, rfl, hs.of_same rfl rfl rfl (Or.inr ⟨?_, Or.inr (Or.inr rfl)⟩)⟩
    exact hm
  · exact ⟨_, if_pos rfl, hs.of_same rfl rfl rfl (Or.inr ⟨hm, Or.inr (Or.inr h)⟩)⟩

/-- **`is_viable`** reads within the board. -/
theorem Placed.isViable (hs : s.Placed) (he : listEmpty s.links .movements = false)
    (direction : TDir) :
    ∃ viable s', s.isViable .moviments direction = some (viable, s') ∧ s'.Placed := by
  unfold Play.isViable
  by_cases hd : direction = .null
  · exact ⟨false, s, if_pos hd, hs⟩
  · rw [if_neg hd]
    dsimp only
    rw [Matrix.read_of_inRange (hs.inner.inRange_ahead hs.onBoard.pacman direction)]
    dsimp only
    obtain ⟨-, s', hdel, hs'⟩ := hs.listDel he
    split_ifs with hcell
    · rw [hdel]
      exact ⟨true, s', rfl, hs'⟩
    · exact ⟨false, s, rfl, hs⟩

/-- A unit of the type of the pacman moves to an open cell, or stays. -/
theorem exists_move {m : Matrix} {unidad : TUnit} (hi : m.Inner)
    (ho : m.Open unidad.x unidad.y) (ht : unidad.type = .pacman) :
    ∃ moved, move m unidad unidad.x unidad.y = some moved ∧ m.Open moved.x moved.y
      ∧ moved.type = .pacman := by
  unfold move
  rw [ht]
  dsimp only
  by_cases hd : unidad.dir = .null
  · exact ⟨_, if_pos hd, ho, rfl⟩
  · rw [if_neg hd]
    have hin := hi.inRange_ahead ho unidad.dir
    rw [Matrix.read_of_inRange hin]
    refine ⟨_, rfl, ?_⟩
    dsimp only
    split_ifs with hcell
    · exact ⟨Matrix.Open.of_ne_wall hin hcell, rfl⟩
    · exact ⟨ho, rfl⟩

/-- The state after food was eaten. -/
theorem Placed.eat (hs : s.Placed) {x y : ℤ} (ho : s.game.matrix.Open x y) :
    ∃ s', s.eat x y = some s' ∧ s'.Placed := by
  unfold Play.eat
  rw [Matrix.read_of_inRange ho.inRange]
  dsimp only
  by_cases hf : s.game.matrix ho.inRange.row ho.inRange.column = .food
  · rw [if_pos hf]
    obtain ⟨m', hw, -⟩ := Matrix.read_write (m := s.game.matrix) ho.inRange x y .empty
    have hsame := Matrix.sameOpen_of_write ho (by decide) hw
    rw [hw]
    refine ⟨_, rfl, ⟨⟨?_, fun i => ?_⟩, ?_, ⟨?_, fun i => ?_⟩, hs.pacmanType, hs.phantomType,
      hs.pointers⟩⟩
    · exact (hsame _ _).mpr hs.onBoard.pacman
    · exact (hsame _ _).mpr (hs.onBoard.phantom i)
    · exact fun x y hxy => hs.inner x y ((hsame x y).mp hxy)
    · exact (hsame _ _).mpr hs.starts.1
    · exact (hsame _ _).mpr (hs.starts.2 i)
  · exact ⟨s, if_neg hf, hs⟩

/-- The pacman replaced by one on an open cell. -/
theorem Placed.setPacman (hs : s.Placed) (pacman : TUnit)
    (ho : s.game.matrix.Open pacman.x pacman.y) (ht : pacman.type = .pacman) :
    ({ s with game := { s.game with pacman := pacman } } : Play).Placed :=
  ⟨⟨ho, hs.onBoard.phantom⟩, hs.inner, hs.starts, ht, hs.phantomType, hs.pointers⟩

/-- **The pacman moves to an open cell, or stays.** -/
theorem Placed.advance (hs : s.Placed) : ∃ s', s.advance = some s' ∧ s'.Placed := by
  unfold Play.advance
  obtain ⟨moved, hmove, ho, ht⟩ := exists_move hs.inner hs.onBoard.pacman hs.pacmanType
  dsimp only
  rw [hmove]
  exact (hs.setPacman moved ho ht).eat hs.onBoard.pacman

/-- **The first request is served.** -/
theorem Placed.serveRequest (hs : s.Placed) : ∃ s', s.serveRequest = some s' ∧ s'.Placed := by
  unfold Play.serveRequest
  cases he : listEmpty s.links .movements with
  | true => exact ⟨s, rfl, hs⟩
  | false =>
    obtain ⟨viable, s₁, hv, hs₁⟩ := hs.isViable he s.moviments
    rw [(hs.listDel he).1]
    dsimp only
    rw [hv]
    cases viable with
    | true =>
      exact (hs₁.setPacman { s₁.game.pacman with dir := s₁.moviments } hs₁.onBoard.pacman
        hs₁.pacmanType).advance
    | false => exact hs₁.advance

/-! ## The phantoms -/

/-- A phantom replaced by one on an open cell. -/
theorem Placed.setPhantom (hs : s.Placed) (i : Fin nphantom) (unidad : TUnit)
    (ho : s.game.matrix.Open unidad.y unidad.x) (ht : unidad.type = .phantom) (random : ℤ) :
    ({ s with game := { s.game with phantom := Function.update s.game.phantom i unidad }
              random := random } : Play).Placed where
  onBoard := by
    refine ⟨hs.onBoard.pacman, fun j => ?_⟩
    show s.game.matrix.Open (Function.update s.game.phantom i unidad j).y
      (Function.update s.game.phantom i unidad j).x
    by_cases hj : j = i
    · rw [hj, Function.update_self]
      exact ho
    · rw [Function.update_of_ne hj]
      exact hs.onBoard.phantom j
  inner := hs.inner
  starts := hs.starts
  pacmanType := hs.pacmanType
  phantomType := by
    intro j
    show (Function.update s.game.phantom i unidad j).type = .phantom
    by_cases hj : j = i
    · rw [hj, Function.update_self]
      exact ht
    · rw [Function.update_of_ne hj]
      exact hs.phantomType j
  pointers := hs.pointers

/-- **A phantom follows `bfs` to an open cell**, or stays where `bfs` finds
no way. -/
theorem Placed.chase (hs : s.Placed) (i : Fin nphantom) (random : ℤ) :
    ∃ game, chase s.game i = some game
      ∧ ({ s with game := game, random := random } : Play).Placed := by
  unfold Game.chase
  have ho := hs.onBoard.phantom i
  obtain ⟨dir, hbfs, hopen⟩ :=
    exists_bfs s.game.matrix ho.inRange s.game.pacman.x s.game.pacman.y
  rw [hbfs]
  dsimp only
  unfold move
  dsimp only
  rw [hs.phantomType i]
  refine ⟨_, rfl, hs.setPhantom i _ ?_ rfl random⟩
  show s.game.matrix.Open (dir.ahead (s.game.phantom i).y (s.game.phantom i).x).1
    (dir.ahead (s.game.phantom i).y (s.game.phantom i).x).2
  by_cases hd : dir = .null
  · rw [hd]
    exact ho
  · exact hopen hd

/-- A phantom that only turns stays on its cell. -/
theorem Placed.turn (hs : s.Placed) (i : Fin nphantom) (dir : TDir) (random : ℤ) :
    ({ s with game := turn s.game i dir, random := random } : Play).Placed :=
  hs.setPhantom i { s.game.phantom i with dir := dir } (hs.onBoard.phantom i) (hs.phantomType i)
    random

/-- **What a phantom that is near does**: nothing, or it turns, or it follows
`bfs`. -/
theorem phantomMove_cases (game : TGame) (random : ℤ) (i : Fin nphantom) (past : ℤ) :
    phantomMove game random i past = some game
      ∨ (∃ dir, phantomMove game random i past = some (Game.turn game i dir))
      ∨ phantomMove game random i past = Game.chase game i := by
  unfold Game.phantomMove
  match i with
  | 0 =>
    dsimp only
    split_ifs
    · exact Or.inr (Or.inl ⟨.left, rfl⟩)
    · exact Or.inr (Or.inr rfl)
    · exact Or.inl rfl
  | 1 =>
    dsimp only
    split_ifs
    · exact Or.inr (Or.inl ⟨.left, rfl⟩)
    · exact Or.inr (Or.inr rfl)
    · exact Or.inr (Or.inl ⟨.null, rfl⟩)
  | 2 =>
    dsimp only
    split_ifs
    · exact Or.inr (Or.inl ⟨.left, rfl⟩)
    · exact Or.inr (Or.inr rfl)
    · exact Or.inr (Or.inl ⟨.null, rfl⟩)
  | 3 =>
    dsimp only
    split_ifs
    · exact Or.inr (Or.inr rfl)
    · exact Or.inr (Or.inl ⟨.null, rfl⟩)

/-- **Each phantom**, whatever the table gives. -/
theorem Placed.phantomMove (hs : s.Placed) (i : Fin nphantom) (past random : ℤ) :
    ∃ game, phantomMove s.game s.random i past = some game
      ∧ ({ s with game := game, random := random } : Play).Placed := by
  rcases phantomMove_cases s.game s.random i past with h | ⟨dir, h⟩ | h
  · exact ⟨s.game, h, hs.of_same rfl rfl rfl hs.pointers⟩
  · exact ⟨_, h, hs.turn i dir random⟩
  · obtain ⟨game, hchase, hs'⟩ := hs.chase i random
    exact ⟨game, h.trans hchase, hs'⟩

theorem Placed.movePhantom (hs : s.Placed) (past : Fin nphantom → ℤ) (i : Fin nphantom) :
    ∃ s', s.movePhantom past i = some s' ∧ s'.Placed := by
  unfold Play.movePhantom
  by_cases hd : distance s.game i ≤ 17
  · rw [if_pos hd]
    obtain ⟨game, hgame, hs'⟩ := hs.phantomMove i (past i) (Int.bmod (s.random + 1) (2 ^ 32))
    rw [hgame]
    exact ⟨_, rfl, hs'⟩
  · exact ⟨s, if_neg hd, hs⟩

/-- What each phantom's move keeps, the moves of all of them keep. -/
theorem movePhantoms_induct {R : Play → Play → Prop} {past : Fin nphantom → ℤ}
    (hrefl : ∀ s, R s s) (htrans : ∀ s t u, R s t → R t u → R s u)
    (hmove : ∀ s i t, s.movePhantom past i = some t → R s t)
    (h : s.movePhantoms past = some s') : R s s' := by
  unfold movePhantoms at h
  generalize List.finRange nphantom = is at h
  induction is generalizing s with
  | nil => exact Option.some_inj.mp h ▸ hrefl s
  | cons i is ih =>
    rw [List.foldlM_cons] at h
    obtain ⟨u, hu, hrest⟩ := Option.bind_eq_some_iff.mp h
    exact htrans s u s' (hmove s i u hu) (ih hrest)

/-! ## Collisions -/

/-- **`restart` puts the units on their start cells.** -/
theorem Placed.collisions (hs : s.Placed) : s.collisions.Placed := by
  unfold Play.collisions
  split_ifs
  · exact ⟨⟨hs.starts.1, hs.starts.2⟩, hs.inner, hs.starts, hs.pacmanType, hs.phantomType,
      hs.pointers⟩
  · exact hs

/-! ## An iteration -/

/-- The parts of an iteration, one for each move of a unit. -/
def stages (e : Tick) : List (Play → Option Play) :=
  [fun s => s.takeRequest e.word, serveRequest]
    ++ (List.finRange nphantom).map (fun i s => s.movePhantom e.past i)
    ++ [fun s => some s.collisions]

/-- Parts of an iteration one after the other. -/
def runStages (fs : List (Play → Option Play)) (s : Play) : Option Play :=
  fs.foldlM (fun s f => f s) s

theorem iteration_eq_runStages (s : Play) (e : Tick) : s.iteration e = runStages (stages e) s := by
  unfold iteration runStages stages movePhantoms
  simp only [List.cons_append, List.nil_append, List.foldlM_cons, List.foldlM_append,
    List.foldlM_map, List.foldlM_nil, Option.bind_eq_bind]
  refine congrArg _ (funext fun s₁ => congrArg _ (funext fun s₂ => ?_))
  cases List.foldlM (Play.movePhantom e.past) s₂ (List.finRange nphantom) <;> rfl

/-- **Between any two parts of an iteration** the units are in the maze. -/
theorem Placed.runStages (hs : s.Placed) (e : Tick) (n : ℕ) :
    ∃ s', runStages ((stages e).take n) s = some s' ∧ s'.Placed := by
  have hall : ∀ f ∈ stages e, ∀ u : Play, u.Placed → ∃ u', f u = some u' ∧ u'.Placed := by
    intro f hf u hu
    simp only [stages, List.mem_append, List.mem_cons, List.not_mem_nil, or_false,
      List.mem_map] at hf
    rcases hf with ((rfl | rfl) | ⟨i, -, rfl⟩) | rfl
    · exact hu.takeRequest e.word
    · exact hu.serveRequest
    · exact hu.movePhantom e.past i
    · exact ⟨_, rfl, hu.collisions⟩
  generalize hfs : (stages e).take n = fs
  replace hall : ∀ f ∈ fs, ∀ u : Play, u.Placed → ∃ u', f u = some u' ∧ u'.Placed :=
    fun f hf => hall f (List.mem_of_mem_take (hfs ▸ hf))
  clear hfs
  induction fs generalizing s with
  | nil => exact ⟨s, rfl, hs⟩
  | cons f fs ih =>
    obtain ⟨s₁, hf, hs₁⟩ := hall f List.mem_cons_self s hs
    obtain ⟨s₂, hfold, hs₂⟩ := ih hs₁ (fun g hg => hall g (List.mem_cons_of_mem f hg))
    refine ⟨s₂, ?_, hs₂⟩
    unfold Play.runStages at hfold ⊢
    rw [List.foldlM_cons, hf]
    exact hfold

/-- **An iteration ends in the maze.** -/
theorem Placed.iteration (hs : s.Placed) (e : Tick) :
    ∃ s', s.iteration e = some s' ∧ s'.Placed := by
  obtain ⟨s', hrun, hs'⟩ := hs.runStages e (stages e).length
  rw [List.take_length, ← iteration_eq_runStages] at hrun
  exact ⟨s', hrun, hs'⟩

theorem Placed.step (hs : s.Placed) {e : Tick} (hst : s.step e = some s') : s'.Placed := by
  unfold Play.step at hst
  split_ifs at hst
  obtain ⟨s₁, hit, hs₁⟩ := hs.iteration e
  rw [hit] at hst
  exact (Option.some_inj.mp hst) ▸ hs₁

/-- `init_game`'s own maze. -/
theorem hasBorder_initMatrix : initMatrix.HasBorder := by decide +kernel

theorem startsOpen_initMatrix : initMatrix.StartsOpen := by
  have hpacman : ∃ h : InRange 1 1, initMatrix h.row h.column ≠ .wall := by decide +kernel
  have hphantom : ∀ i, ∃ h : InRange (phantomStart i).2 (phantomStart i).1,
      initMatrix h.row h.column ≠ .wall := by decide +kernel
  refine ⟨?_, fun i => ?_⟩
  · obtain ⟨hin, hcell⟩ := hpacman
    exact Matrix.Open.of_ne_wall hin hcell
  · obtain ⟨hin, hcell⟩ := hphantom i
    exact Matrix.Open.of_ne_wall hin hcell

/-- The loop is entered if there is food. -/
theorem running_initGame {matrix : Matrix} {i : Fin rows} {j : Fin columns}
    (hfood : matrix i j = .food) {s : Play} (ht : 0 ≤ s.total) :
    (initGame matrix s).running = true := by
  have hpos : 0 < foodCount matrix :=
    Finset.card_pos.mpr ⟨(i, j), Finset.mem_filter.mpr ⟨Finset.mem_univ _, hfood⟩⟩
  refine decide_eq_true ⟨show (0 : ℤ) < 3 by decide, ?_⟩
  show (0 : ℤ) < (s.total + foodCount matrix) * 10
  omega

/-- The units of `init_game`. -/
theorem placed_initGame {matrix : Matrix} (hb : matrix.HasBorder) (hstart : matrix.StartsOpen)
    (s : Play) : (initGame matrix s).Placed where
  onBoard := ⟨hstart.1, hstart.2⟩
  inner := hb.inner
  starts := hstart
  pacmanType := rfl
  phantomType := fun _ => rfl
  pointers := Or.inl rfl

/-- The value of `random` replaced by another one. -/
def withRandom (s : Play) (random : ℤ) : Play := { s with random := random }

theorem Placed.withRandom (hs : s.Placed) (random : ℤ) : (s.withRandom random).Placed :=
  hs.of_same rfl rfl rfl hs.pointers

/-- An iteration that finds any value in `random`. -/
def stepFrom (s : Play) (e : ℤ × Tick) : Option Play := (s.withRandom e.1).step e.2

/-- **The units never leave the maze.** After any number of iterations, with
any requests and with any value of `random` before each of them, the pacman
and the phantoms are on cells of the board that are not walls, and so they
are between any two parts of the next iteration, which reads `Matrix` within
its bounds only. -/
theorem units_on_board {matrix : Matrix} (hb : matrix.HasBorder) (hstart : matrix.StartsOpen)
    (s₀ : Play) {events : List (ℤ × Tick)}
    (hrun : Run stepFrom (fun _ _ => True) (initGame matrix s₀) events s) :
    s.game.OnBoard ∧ ∀ (random : ℤ) (e : Tick) (n : ℕ), ∃ s',
      runStages ((stages e).take n) (s.withRandom random) = some s' ∧ s'.game.OnBoard := by
  have hs : s.Placed := by
    refine hrun.invariant (I := Placed) (fun u e u' hu _ hst => ?_) (placed_initGame hb hstart s₀)
    exact (hu.withRandom e.1).step hst
  refine ⟨hs.onBoard, fun random e n => ?_⟩
  obtain ⟨s', hstages, hs'⟩ := (hs.withRandom random).runStages e n
  exact ⟨s', hstages, hs'.onBoard⟩

/-- A request in the maze of `init_game`. -/
theorem units_on_board_initMatrix : ∃ s,
    Run stepFrom (fun _ _ => True) (initGame initMatrix zeroed) [(0, ⟨.right, fun _ => 0⟩)] s
      ∧ s.game.OnBoard ∧ ∀ (random : ℤ) (e : Tick) (n : ℕ), ∃ s',
        runStages ((stages e).take n) (s.withRandom random) = some s' ∧ s'.game.OnBoard := by
  obtain ⟨s, hit, -⟩ := ((placed_initGame hasBorder_initMatrix startsOpen_initMatrix
    zeroed).withRandom 0).iteration ⟨.right, fun _ => 0⟩
  have hgo : ((initGame initMatrix zeroed).withRandom 0).running = true :=
    running_initGame (i := 1) (j := 1) (by decide) (s := zeroed) le_rfl
  have hrun : Run stepFrom (fun _ _ => True) (initGame initMatrix zeroed)
      [(0, ⟨.right, fun _ => 0⟩)] s := by
    refine Run.single trivial ?_
    unfold stepFrom step
    rw [if_pos hgo, hit]
  exact ⟨s, hrun, units_on_board hasBorder_initMatrix startsOpen_initMatrix zeroed hrun⟩

end Play

end ZeOS.Game
