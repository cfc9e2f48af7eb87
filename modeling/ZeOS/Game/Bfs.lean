import Mathlib.Data.List.Basic
import Mathlib.Tactic.Linarith
import ZeOS.Game.Board

/-!
# The search of a phantom

`bfs` of `game.c`: a breadth-first search over the cells that are not walls,
which returns the first step of the path it finds. The arrays `nodes` and
`queue` are the lists of what has been put into them, so `rear` is the
length of either, and `visited` is a function on the indices.
-/

namespace ZeOS.Game

/-- `node`. -/
structure Node where
  x : ℤ
  y : ℤ
  /-- The first step from the start to the node. -/
  direction : TDir
deriving DecidableEq

/-- The local variables of `bfs`. -/
structure Search where
  visited : ℤ → ℤ → Bool
  nodes : List Node
  queue : List ℕ
  front : ℕ

namespace Search

/-- The stores before the loop. -/
def start (startX startY : ℤ) : Search where
  visited := fun x y => decide (x = startX ∧ y = startY)
  nodes := [⟨startX, startY, .null⟩]
  queue := [0]
  front := 0

/-- A cell put into the queue. The index stored is the one of the node just
created. -/
def push (s : Search) (current : Node) (newX newY : ℤ) (newDirection : TDir) : Search where
  visited := fun x y => decide (x = newX ∧ y = newY) || s.visited x y
  nodes := s.nodes ++
    [⟨newX, newY, if current.direction = .null then newDirection else current.direction⟩]
  queue := s.queue ++ [s.queue.length]
  front := s.front

/-- One iteration of the inner loop: the neighbour of the current node in
one direction. -/
def look (m : Matrix) (current : Node) (s : Search) (newDirection : TDir) : Option Search :=
  let newX := (newDirection.ahead current.x current.y).1
  let newY := (newDirection.ahead current.x current.y).2
  if 0 ≤ newX ∧ newX < rows ∧ 0 ≤ newY ∧ newY < columns then
    (m.read newX newY).map fun cell =>
      if cell ≠ .wall ∧ s.visited newX newY = false then
        if s.queue.length < maxQueueSize then s.push current newX newY newDirection else s
      else s
  else some s

/-- The array `directions`. -/
def directions : List TDir := [.up, .down, .left, .right]

/-- The outer loop, within a number of iterations. -/
def loop (m : Matrix) (targetX targetY : ℤ) : ℕ → Search → Option TDir
  | 0, _ => none
  | fuel + 1, s =>
    if s.front = s.queue.length then some .null
    else
      match (s.queue[s.front]?).bind (fun index => s.nodes[index]?) with
      | none => none
      | some current =>
        if current.x = targetX ∧ current.y = targetY then some current.direction
        else
          match directions.foldlM (look m current) { s with front := s.front + 1 } with
          | none => none
          | some s' => loop m targetX targetY fuel s'

end Search

/-- `bfs`. The loop takes one index out of the queue in each iteration, and
the queue never holds more than `MAX_QUEUE_SIZE`. -/
def bfs (m : Matrix) (startX startY targetX targetY : ℤ) : Option TDir :=
  if InRange startX startY then
    (Search.start startX startY).loop m targetX targetY (maxQueueSize + 1)
  else none

/-! ## What the search knows of the nodes it has created -/

namespace Search

variable {m : Matrix} {startX startY : ℤ} {s s' : Search} {current : Node}

/-- A node is within the board, and the direction stored with it leads from
the start to a cell of the maze; only the start has none. -/
structure NodeOk (m : Matrix) (startX startY : ℤ) (n : Node) : Prop where
  inRange : InRange n.x n.y
  start : n.direction = .null → n.x = startX ∧ n.y = startY
  ahead : n.direction ≠ .null →
    m.Open (n.direction.ahead startX startY).1 (n.direction.ahead startX startY).2

/-- **The invariant of the search.** -/
structure Sound (m : Matrix) (startX startY : ℤ) (s : Search) : Prop where
  nodes : ∀ n ∈ s.nodes, NodeOk m startX startY n
  queue : ∀ index ∈ s.queue, index < s.nodes.length
  length_eq : s.nodes.length = s.queue.length
  length_le : s.queue.length ≤ maxQueueSize
  front_le : s.front ≤ s.queue.length

theorem sound_start (h : InRange startX startY) : Sound m startX startY (start startX startY) where
  nodes := by
    intro n hn
    rw [List.mem_singleton.mp hn]
    exact ⟨h, fun _ => ⟨rfl, rfl⟩, fun hne => absurd rfl hne⟩
  queue := by
    intro index hi
    rw [List.mem_singleton.mp hi]
    exact Nat.one_pos
  length_eq := rfl
  length_le := show 1 ≤ maxQueueSize by decide
  front_le := Nat.zero_le 1

/-- **A new node keeps what is known**: its direction is the step just made
where the current node is the start, and the one of the current node
otherwise. -/
theorem Sound.push (hs : Sound m startX startY s) (hc : NodeOk m startX startY current)
    {newX newY : ℤ} {newDirection : TDir} (hd : newDirection ≠ .null)
    (hnew : newDirection.ahead current.x current.y = (newX, newY)) (ho : m.Open newX newY)
    (hlt : s.queue.length < maxQueueSize) :
    Sound m startX startY (s.push current newX newY newDirection) where
  nodes := by
    intro n hn
    rcases List.mem_append.mp hn with hold | hlast
    · exact hs.nodes n hold
    · rw [List.mem_singleton.mp hlast]
      refine ⟨ho.inRange, ?_, ?_⟩
      · show (if current.direction = .null then newDirection else current.direction) = .null → _
        intro hnull
        by_cases hcur : current.direction = .null
        · rw [if_pos hcur] at hnull
          exact absurd hnull hd
        · rw [if_neg hcur] at hnull
          exact absurd hnull hcur
      · show (if current.direction = .null then newDirection else current.direction) ≠ .null → _
        intro hne
        show m.Open ((if current.direction = .null then newDirection
            else current.direction).ahead startX startY).1
          ((if current.direction = .null then newDirection
            else current.direction).ahead startX startY).2
        by_cases hcur : current.direction = .null
        · rw [if_pos hcur]
          rw [(hc.start hcur).1, (hc.start hcur).2] at hnew
          rw [hnew]
          exact ho
        · rw [if_neg hcur]
          exact hc.ahead hcur
  queue := by
    intro index hi
    show index < (s.nodes ++ [_]).length
    rw [List.length_append, List.length_singleton]
    rcases List.mem_append.mp hi with hold | hlast
    · exact Nat.lt_succ_of_lt (hs.queue index hold)
    · rw [List.mem_singleton.mp hlast, hs.length_eq]
      exact Nat.lt_succ_self _
  length_eq := by
    show (s.nodes ++ [_]).length = (s.queue ++ [s.queue.length]).length
    rw [List.length_append, List.length_append, hs.length_eq]
    rfl
  length_le := by
    show (s.queue ++ [s.queue.length]).length ≤ maxQueueSize
    rw [List.length_append]
    exact hlt
  front_le := by
    show s.front ≤ (s.queue ++ [s.queue.length]).length
    rw [List.length_append]
    exact Nat.le_add_right_of_le hs.front_le

/-- **A neighbour is looked at without leaving the board.** -/
theorem Sound.look (hs : Sound m startX startY s) (hc : NodeOk m startX startY current)
    {newDirection : TDir} (hd : newDirection ≠ .null) :
    ∃ s', s.look m current newDirection = some s' ∧ Sound m startX startY s'
      ∧ s'.front = s.front := by
  unfold Search.look
  dsimp only
  generalize hnew : newDirection.ahead current.x current.y = new
  obtain ⟨newX, newY⟩ := new
  by_cases hin : InRange newX newY
  · have hin' : 0 ≤ newX ∧ newX < rows ∧ 0 ≤ newY ∧ newY < columns := hin
    rw [if_pos hin', Matrix.read_of_inRange hin]
    refine ⟨_, rfl, ?_⟩
    dsimp only
    by_cases hopen : m hin.row hin.column ≠ .wall ∧ s.visited newX newY = false
    · rw [if_pos hopen]
      by_cases hroom : s.queue.length < maxQueueSize
      · rw [if_pos hroom]
        exact ⟨hs.push hc hd hnew (Matrix.Open.of_ne_wall hin hopen.1) hroom, rfl⟩
      · rw [if_neg hroom]
        exact ⟨hs, rfl⟩
    · rw [if_neg hopen]
      exact ⟨hs, rfl⟩
  · exact ⟨s, if_neg hin, hs, rfl⟩

/-- The four neighbours. -/
theorem Sound.foldlM_look (hs : Sound m startX startY s) (hc : NodeOk m startX startY current)
    (ds : List TDir) (hds : TDir.null ∉ ds) :
    ∃ s', ds.foldlM (Search.look m current) s = some s' ∧ Sound m startX startY s'
      ∧ s'.front = s.front := by
  induction ds generalizing s with
  | nil => exact ⟨s, rfl, hs, rfl⟩
  | cons d ds ih =>
    obtain ⟨s₁, hlook, hs₁, hf₁⟩ := hs.look hc (fun he => hds (he ▸ List.mem_cons_self))
    obtain ⟨s₂, hfold, hs₂, hf₂⟩ := ih hs₁ (fun hm => hds (List.mem_cons_of_mem d hm))
    refine ⟨s₂, ?_, hs₂, hf₂.trans hf₁⟩
    rw [List.foldlM_cons, hlook]
    exact hfold

/-- **The loop ends**, with the direction of a node it has created or with
none. -/
theorem Sound.loop (hs : Sound m startX startY s) (targetX targetY : ℤ) {fuel : ℕ}
    (hfuel : maxQueueSize < fuel + s.front) :
    ∃ d, s.loop m targetX targetY fuel = some d
      ∧ (d ≠ .null → m.Open (d.ahead startX startY).1 (d.ahead startX startY).2) := by
  induction fuel generalizing s with
  | zero =>
    have := hs.front_le
    have := hs.length_le
    omega
  | succ fuel ih =>
    unfold Search.loop
    by_cases hend : s.front = s.queue.length
    · exact ⟨.null, if_pos hend, fun hne => absurd rfl hne⟩
    · have hlt : s.front < s.queue.length := lt_of_le_of_ne hs.front_le hend
      have hindex := hs.queue _ (List.getElem_mem hlt)
      have hc := hs.nodes _ (List.getElem_mem hindex)
      rw [if_neg hend, List.getElem?_eq_getElem hlt, Option.bind_some,
        List.getElem?_eq_getElem hindex]
      generalize s.nodes[s.queue[s.front]] = current at hc
      dsimp only
      by_cases htarget : current.x = targetX ∧ current.y = targetY
      · exact ⟨_, if_pos htarget, hc.ahead⟩
      · rw [if_neg htarget]
        have hs' : Sound m startX startY { s with front := s.front + 1 } :=
          ⟨hs.nodes, hs.queue, hs.length_eq, hs.length_le, hlt⟩
        obtain ⟨s₁, hfold, hs₁, hf₁⟩ := hs'.foldlM_look hc directions (by decide)
        rw [hfold]
        refine ih hs₁ ?_
        rw [hf₁]
        show maxQueueSize < fuel + (s.front + 1)
        omega

end Search

/-- **`bfs` from a cell of the board returns**, and a direction it returns
leads to a cell of the maze. -/
theorem exists_bfs (m : Matrix) {startX startY : ℤ} (h : InRange startX startY)
    (targetX targetY : ℤ) :
    ∃ d, bfs m startX startY targetX targetY = some d
      ∧ (d ≠ .null → m.Open (d.ahead startX startY).1 (d.ahead startX startY).2) := by
  unfold bfs
  rw [if_pos h]
  exact (Search.sound_start h).loop targetX targetY (Nat.lt_succ_self _)

end ZeOS.Game
