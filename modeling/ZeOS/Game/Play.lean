import Mathlib.Data.Fintype.Card
import Mathlib.Data.Fintype.Prod
import Mathlib.Data.Int.ModEq
import ZeOS.List
import ZeOS.Game.Bfs

/-!
# One iteration of the game

`game.c` without its output: `init_game`, the functions that move the units,
and the body of the loop of `start_game`. `main` passes `game = 0`, so the
record of the game lies at address 0 and a store through a null pointer
lands in it.

What the loop reads from outside comes with each iteration as a `Tick`: the
word in the shared memory, and what a table of phantom moves gives for a
negative index, which is whatever lies before the table.
-/

namespace ZeOS.Game

/-- The two nodes of the list of requests: its head, and the link of the
local variable `moviments`. -/
inductive ListNode
  | movements | moviments
deriving DecidableEq

/-- The variables of the game: the record, the globals of `game.c`, and the
locals of `start_game` that outlive an iteration. -/
structure Play where
  game : TGame
  lives : ℤ
  random : ℤ
  total : ℤ
  /-- The pointers of `movements` and of `moviments.list`. -/
  links : Links ListNode
  /-- `moviments.direction`. -/
  moviments : TDir

/-- The variables in a memory of zeros. -/
def Play.zeroed : Play where
  game :=
    { lives := 0, points := 0, matrix := fun _ _ => .wall
      pacman := { x := 0, y := 0, dir := .null, type := .pacman }
      phantom := fun _ => { x := 0, y := 0, dir := .null, type := .pacman } }
  lives := 0
  random := 0
  total := 0
  links := fun _ => ⟨none, none⟩
  moviments := .null

/-- What an iteration reads from outside. -/
structure Tick where
  /-- The word in the shared memory. -/
  word : TDir
  /-- What the table of a phantom gives for a negative index. -/
  past : Fin nphantom → ℤ

/-! ## Setting up -/

/-- The number of cells with food. -/
def foodCount (m : Matrix) : ℕ :=
  (Finset.univ.filter (fun c : Fin rows × Fin columns => m c.1 c.2 = .food)).card

/-- The cell of an enumeration value. -/
def TCell.ofCode : ℕ → TCell
  | 0 => .wall
  | 1 => .null
  | 2 => .food
  | _ => .empty

/-- The maze `init_game` sets up. -/
def initMatrix : Matrix := fun i j =>
  TCell.ofCode ((([
    [0,0,0,0,0,0,0,0,0,0,0,0,0,0,0,0,0,0,0,0,0,0,0,0,0,0,0,0,0,0,0,0,0,0,0,0,0,0,0,0,0,0,0,0,0,0,0,0,0,0],
    [0,2,2,2,2,2,2,2,2,2,2,2,2,2,2,2,2,2,2,2,2,2,2,2,2,2,2,2,2,2,2,2,2,2,2,2,2,2,2,2,2,2,2,2,2,2,2,2,2,0],
    [0,2,0,0,0,0,2,0,0,0,0,0,2,0,0,0,0,0,2,0,0,0,0,0,2,0,0,0,0,0,2,0,0,0,0,0,2,0,0,0,0,0,2,0,0,0,0,0,2,0],
    [0,2,0,0,0,0,2,0,0,0,0,0,2,0,0,0,0,0,2,0,0,0,0,0,2,0,0,0,0,0,2,0,0,0,0,0,2,0,0,0,0,0,2,0,0,0,0,0,2,0],
    [0,2,2,2,2,2,2,2,2,2,2,2,2,2,2,2,2,2,2,2,2,2,2,2,2,2,2,2,2,2,2,2,2,2,2,2,2,2,2,2,2,2,2,2,2,2,2,2,2,0],
    [0,2,0,0,0,0,2,0,0,2,0,0,0,0,0,2,0,0,0,0,0,2,0,0,0,0,0,2,0,0,2,0,0,0,0,0,2,0,0,0,0,0,2,0,0,0,0,0,2,0],
    [0,2,0,0,0,0,2,0,0,2,0,0,0,0,0,2,0,0,0,0,0,2,0,0,0,0,0,2,0,0,2,0,0,0,0,0,2,0,0,0,0,0,2,0,0,0,0,0,2,0],
    [0,2,2,2,2,2,2,0,0,2,2,2,2,0,0,2,2,2,2,2,2,2,0,0,2,2,2,2,0,0,2,2,2,2,2,2,2,0,0,2,2,2,2,0,0,2,2,2,2,0],
    [0,0,0,0,0,0,2,0,0,0,0,0,2,0,0,0,0,0,2,0,0,0,0,0,2,0,0,0,0,0,2,0,0,0,0,0,2,0,0,2,0,0,0,0,0,2,0,0,0,0],
    [0,0,0,0,0,0,2,0,0,0,0,0,2,0,0,0,0,0,2,0,0,0,0,0,2,0,0,0,0,0,2,0,0,0,0,0,2,0,0,2,0,0,0,0,0,2,0,0,0,0],
    [0,0,0,0,0,0,2,0,0,2,2,2,2,2,2,2,2,2,2,0,0,2,2,2,2,2,2,2,2,2,2,0,0,2,2,2,2,0,0,2,0,0,0,0,0,2,0,0,0,0],
    [0,0,0,0,0,0,2,0,0,2,0,0,0,0,0,0,0,0,2,0,0,2,0,0,0,0,0,2,0,0,2,0,0,2,0,0,0,0,0,2,0,0,0,0,0,2,0,0,0,0],
    [0,0,0,0,0,0,2,0,0,2,0,0,0,0,0,0,0,0,2,0,0,2,0,0,0,0,0,2,0,0,2,0,0,2,0,0,0,0,0,2,0,0,0,0,0,2,0,0,0,0],
    [0,2,2,2,2,2,2,2,2,2,0,0,0,0,0,0,0,0,2,0,0,2,0,0,0,0,0,2,0,0,2,2,2,2,2,2,2,0,0,2,2,2,2,2,2,2,0,0,0,0],
    [0,2,0,0,0,0,2,0,0,0,0,0,0,0,0,0,0,0,2,0,0,2,0,0,0,0,0,2,0,0,0,0,0,0,0,0,2,0,0,0,0,0,2,0,0,2,0,0,0,0],
    [0,2,0,0,0,0,2,0,0,0,0,0,0,0,0,0,0,0,2,0,0,2,2,2,2,0,0,2,0,0,0,0,0,0,0,0,2,0,0,0,0,0,2,0,0,2,0,0,0,0],
    [0,2,2,2,0,0,2,2,2,2,0,0,2,2,2,2,2,2,2,0,0,2,0,0,2,2,2,2,2,2,2,2,2,2,0,0,2,2,2,2,2,2,2,2,2,2,0,0,0,0],
    [0,2,0,2,0,0,2,0,0,2,0,0,2,0,0,2,0,0,2,0,0,2,2,2,2,0,2,0,2,0,2,0,0,2,0,0,2,0,2,0,2,0,2,0,0,2,3,3,3,0],
    [0,2,2,2,2,2,2,2,2,2,2,2,2,0,0,2,2,2,2,2,2,2,0,0,0,0,2,2,2,2,2,0,0,2,2,2,2,0,2,2,2,0,2,2,2,2,3,3,3,0],
    [0,0,0,0,0,0,0,0,0,0,0,0,0,0,0,0,0,0,0,0,0,0,0,0,0,0,0,0,0,0,0,0,0,0,0,0,0,0,0,0,0,0,0,0,0,0,0,0,0,0]] : List (List ℕ)).getD i []).getD j 0)

/-- Where the phantoms start: `X_START` is 47 and `Y_START` is 17. -/
def phantomStart (i : Fin nphantom) : ℤ × ℤ := (47 + i / 2, 17 + i % 2)

/-- `init_game`, with the local `Matrix` as a parameter. The directions of
the phantoms are what they were. -/
def initGame (matrix : Matrix) (s : Play) : Play where
  game :=
    { lives := s.game.lives
      points := 0
      matrix := matrix
      pacman := { x := 1, y := 1, dir := .left, type := .pacman }
      phantom := fun i =>
        { x := (phantomStart i).1, y := (phantomStart i).2
          dir := (s.game.phantom i).dir, type := .phantom } }
  lives := 3
  random := 0
  total := s.total + foodCount matrix
  links := initListHead s.links .movements
  moviments := s.moviments

/-- `restart`. -/
def restart (game : TGame) : TGame :=
  { game with
    pacman := { game.pacman with x := 1, y := 1, dir := .null }
    phantom := fun i =>
      { game.phantom i with x := (phantomStart i).1, y := (phantomStart i).2, dir := .null } }

/-! ## Moving a unit -/

/-- `move`. The pacman looks at the cell ahead of it, a phantom does not. -/
def move (m : Matrix) (unidad : TUnit) (currentX currentY : ℤ) : Option TUnit :=
  match unidad.type with
  | .pacman =>
    if unidad.dir = .null then some { unidad with x := currentX, y := currentY }
    else
      let next := unidad.dir.ahead currentX currentY
      (m.read next.1 next.2).map fun cell =>
        if cell ≠ .wall then { unidad with x := next.1, y := next.2 }
        else { unidad with x := currentX, y := currentY }
  | .phantom =>
    let next := unidad.dir.ahead currentY currentX
    some { unidad with x := next.2, y := next.1 }

/-! ## The phantoms -/

def phantom1 : List ℤ := [2, 2, 1, 1, 1, 2, 1, 1, 2, 2]
def phantom2 : List ℤ := [2, 2, 1, 1, 1, 2, 1, 1, 2, 2]
def phantom3 : List ℤ := [1, 1, 2, 2, 1, 1, 2, 2, 1, 1]
def phantom4 : List ℤ := [1, 1, 2, 2, 1, 1, 2, 2, 1, 1]

/-- An element of a table; the value for a negative index is given. -/
def tableRead (table : List ℤ) (indice past : ℤ) : ℤ :=
  if 0 ≤ indice then table.getD indice.toNat past else past

/-- The distance of a phantom from the pacman, less ten. -/
def distance (game : TGame) (i : Fin nphantom) : ℤ :=
  let px := (game.phantom i).x
  let py := (game.phantom i).y
  let pmx := game.pacman.y
  let pmy := game.pacman.x
  (if px > pmx then
    if py > pmy then (px - pmx) + (py - pmy) else (px - pmx) + (pmy - py)
  else
    if py > pmy then (pmx - px) + (py - pmy) else (pmx - px) + (pmy - py)) - 10

/-- A phantom turned. -/
def turn (game : TGame) (i : Fin nphantom) (dir : TDir) : TGame :=
  { game with phantom := Function.update game.phantom i { game.phantom i with dir := dir } }

/-- A phantom turned to where `bfs` leads, and moved. -/
def chase (game : TGame) (i : Fin nphantom) : Option TGame :=
  match bfs game.matrix (game.phantom i).y (game.phantom i).x game.pacman.x game.pacman.y with
  | none => none
  | some dir =>
    (move game.matrix { game.phantom i with dir := dir } (game.phantom i).x
      (game.phantom i).y).map fun moved =>
        { game with phantom := Function.update game.phantom i moved }

/-- What the branches of `move_phantoms` do with a phantom that is near. The
test of the first phantom's second branch is the one of its first, so it
never stops; the fourth one does not wait. -/
def phantomMove (game : TGame) (random : ℤ) (i : Fin nphantom) (past : ℤ) : Option TGame :=
  let indice := random.tmod 10
  match i with
  | 0 =>
    if (tableRead phantom1 indice past).tmod 2 ≠ 0 then
      if random < 2 then some (turn game 0 .left) else chase game 0
    else some game
  | 1 =>
    if (tableRead phantom2 indice past).tmod 2 = 0 then
      if random < 4 then some (turn game 1 .left) else chase game 1
    else some (turn game 1 .null)
  | 2 =>
    if (tableRead phantom3 indice past).tmod 2 = 0 then
      if random < 1 then some (turn game 2 .left) else chase game 2
    else some (turn game 2 .null)
  | 3 =>
    if (tableRead phantom4 indice past).tmod 2 = 0 then chase game 3
    else some (turn game 3 .null)

namespace Play

/-- One iteration of `move_phantoms`. -/
def movePhantom (past : Fin nphantom → ℤ) (s : Play) (i : Fin nphantom) : Option Play :=
  if distance s.game i ≤ 17 then
    (phantomMove s.game s.random i (past i)).map fun game =>
      { s with game := game, random := Int.bmod (s.random + 1) (2 ^ 32) }
  else some s

/-- `move_phantoms`. -/
def movePhantoms (past : Fin nphantom → ℤ) (s : Play) : Option Play :=
  (List.finRange nphantom).foldlM (movePhantom past) s

/-! ## The requests -/

/-- `list_del`. Where both pointers of the entry are null the two stores go
to the addresses 4 and 0, which are `points` and `lives` of the record. -/
def listDel (s : Play) (entry : ListNode) : Option Play :=
  match ZeOS.listDel s.links entry with
  | some links => some { s with links := links }
  | none =>
    if s.links entry = ⟨none, none⟩ then
      some { s with game := { s.game with lives := 0, points := 0 } }
    else none

/-- `is_viable`. -/
def isViable (s : Play) (currLhpos : ListNode) (direction : TDir) : Option (Bool × Play) :=
  if direction = .null then some (false, s)
  else
    let next := direction.ahead s.game.pacman.x s.game.pacman.y
    match s.game.matrix.read next.1 next.2 with
    | none => none
    | some cell =>
      if cell ≠ .wall then (s.listDel currLhpos).map fun s => (true, s)
      else some (false, s)

/-- A direction taken from the shared word. The assignment to `moviments`
clears its pointers. -/
def takeRequest (word : TDir) (s : Play) : Option Play :=
  if word ≠ .null then
    (listAddTail (Function.update s.links .moviments ⟨none, none⟩) .moviments .movements).map
      fun links => { s with links := links, moviments := word }
  else some s

/-- The food on a cell eaten. -/
def eat (s : Play) (currentX currentY : ℤ) : Option Play :=
  match s.game.matrix.read currentX currentY with
  | none => none
  | some cell =>
    if cell = .food then
      (s.game.matrix.write currentX currentY .empty).map fun matrix =>
        { s with game := { s.game with points := s.game.points + 10, matrix := matrix } }
    else some s

/-- The pacman moved, and the food eaten where it was. -/
def advance (s : Play) : Option Play :=
  let pacman := s.game.pacman
  match move s.game.matrix pacman pacman.x pacman.y with
  | none => none
  | some moved =>
    ({ s with game := { s.game with pacman := moved } } : Play).eat pacman.x pacman.y

/-- The first request served, if there is any. -/
def serveRequest (s : Play) : Option Play :=
  if listEmpty s.links .movements then some s
  else
    match listFirst s.links .movements with
    | some .moviments =>
      match s.isViable .moviments s.moviments with
      | none => none
      | some (viable, s) =>
        (if viable then
          ({ s with game := { s.game with pacman := { s.game.pacman with dir := s.moviments } } }
            : Play)
        else s).advance
    | _ => none

/-! ## The loop -/

/-- Whether a phantom is on the cell of the pacman. -/
def caught (game : TGame) (i : Fin nphantom) : Bool :=
  decide (game.pacman.y = (game.phantom i).x ∧ game.pacman.x = (game.phantom i).y)

/-- The loop over the phantoms, which the first collision ends. -/
def collisions (s : Play) : Play :=
  if (List.finRange nphantom).any (caught s.game) then
    { s with lives := s.lives - 1, game := restart s.game }
  else s

/-- The body of the loop of `start_game`. -/
def iteration (s : Play) (e : Tick) : Option Play :=
  (s.takeRequest e.word).bind fun s =>
    s.serveRequest.bind fun s =>
      (s.movePhantoms e.past).map collisions

/-- The condition of the loop. -/
def running (s : Play) : Bool := decide (0 < s.lives ∧ s.game.points < s.total * 10)

/-- **An iteration of `start_game`**, while the condition holds. -/
def step (s : Play) (e : Tick) : Option Play :=
  if s.running then s.iteration e else none

end Play

end ZeOS.Game
