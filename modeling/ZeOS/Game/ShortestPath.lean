import Mathlib.Data.Int.Interval
import Mathlib.Data.Finset.Prod
import ZeOS.BreadthFirst
import ZeOS.Game.Bfs

/-!
# The search finds a shortest path

The cells of the maze are the points of a graph whose steps lead to a cell
that is not a wall, from any of its four neighbours. `bfs` is a breadth-first
traversal of it from the start: `nodes` is the list of the cells found, in
order, `queue` holds the indices of `nodes` and so adds nothing to it, and
`visited` marks the cells of the list.

The cells of the list are distinct and within the board, so there are never
more of them than the arrays have room for. The first step of a shortest
path is handed down from a node to those found from it, which is the
direction `bfs` returns when it takes the target out of the queue.
-/

namespace ZeOS.Game

open Walk

/-! ## The maze as a graph -/

/-- A step to one of the four neighbours that is not a wall. Nothing is asked
of the cell left. -/
def Matrix.Step (m : Matrix) (u v : ℤ × ℤ) : Prop :=
  (u.1 - v.1).natAbs + (u.2 - v.2).natAbs = 1 ∧ m.Open v.1 v.2

/-- The cell of a node. -/
def Node.cell (n : Node) : ℤ × ℤ := (n.x, n.y)

/-- The four directions lead to the four neighbours. -/
theorem TDir.natAbs_ahead {d : TDir} (hd : d ∈ Search.directions) (x y : ℤ) :
    (x - (d.ahead x y).1).natAbs + (y - (d.ahead x y).2).natAbs = 1 := by
  cases d with
  | null => exact absurd hd (by decide)
  | up => show (x - (x - 1)).natAbs + (y - y).natAbs = 1; omega
  | down => show (x - (x + 1)).natAbs + (y - y).natAbs = 1; omega
  | left => show (x - x).natAbs + (y - (y - 1)).natAbs = 1; omega
  | right => show (x - x).natAbs + (y - (y + 1)).natAbs = 1; omega

/-- There are no other neighbours. -/
theorem TDir.exists_ahead {x y x' y' : ℤ}
    (h : (x - x').natAbs + (y - y').natAbs = 1) :
    ∃ d ∈ Search.directions, d.ahead x y = (x', y') := by
  have hcases : x' = x - 1 ∧ y' = y ∨ x' = x + 1 ∧ y' = y
      ∨ x' = x ∧ y' = y - 1 ∨ x' = x ∧ y' = y + 1 := by omega
  rcases hcases with ⟨rfl, rfl⟩ | ⟨rfl, rfl⟩ | ⟨rfl, rfl⟩ | ⟨rfl, rfl⟩
  · exact ⟨.up, by decide, rfl⟩
  · exact ⟨.down, by decide, rfl⟩
  · exact ⟨.left, by decide, rfl⟩
  · exact ⟨.right, by decide, rfl⟩

/-- **The steps are the directions** the search tries. -/
theorem Matrix.step_iff {m : Matrix} {u v : ℤ × ℤ} :
    m.Step u v ↔ m.Open v.1 v.2 ∧ ∃ d ∈ Search.directions, d.ahead u.1 u.2 = v := by
  constructor
  · rintro ⟨hnext, hopen⟩
    exact ⟨hopen, TDir.exists_ahead hnext⟩
  · rintro ⟨hopen, d, hd, rfl⟩
    exact ⟨TDir.natAbs_ahead hd u.1 u.2, hopen⟩

/-- **Distinct cells of the board** are no more than the queue has room
for. -/
theorem length_le_of_nodup {cells : List (ℤ × ℤ)} (hnodup : cells.Nodup)
    (hin : ∀ c ∈ cells, InRange c.1 c.2) : cells.length ≤ maxQueueSize := by
  have hsub : cells.toFinset ⊆ Finset.Ico (0 : ℤ) rows ×ˢ Finset.Ico (0 : ℤ) columns := by
    intro c hc
    have hrange := hin c (List.mem_toFinset.mp hc)
    rw [Finset.mem_product, Finset.mem_Ico, Finset.mem_Ico]
    exact ⟨⟨hrange.1, hrange.2.1⟩, hrange.2.2⟩
  calc cells.length = cells.toFinset.card := (List.toFinset_card_of_nodup hnodup).symm
    _ ≤ (Finset.Ico (0 : ℤ) rows ×ˢ Finset.Ico (0 : ℤ) columns).card := Finset.card_le_card hsub
    _ = maxQueueSize := by
      rw [Finset.card_product, Int.card_Ico, Int.card_Ico]
      rfl

/-! ## The accesses of the search

The same search with every access to `visited`, `nodes` and `queue` checked
against the bounds of the array, and with no store skipped: where the guard
of the source would drop a cell, it fails. -/

namespace Search

/-- `visited[x][y]`. -/
def readVisited (s : Search) (x y : ℤ) : Option Bool :=
  if InRange x y then some (s.visited x y) else none

/-- `nodes[queue[front]]`. -/
def readFront (s : Search) : Option Node :=
  if s.front < maxQueueSize then
    (s.queue[s.front]?).bind fun index =>
      if index < maxQueueSize then s.nodes[index]? else none
  else none

/-- The stores at index `rear`, and the one that marks the cell. -/
def pushChecked (s : Search) (current : Node) (newX newY : ℤ) (newDirection : TDir) :
    Option Search :=
  if s.queue.length < maxQueueSize ∧ InRange newX newY then
    some (s.push current newX newY newDirection)
  else none

/-- `Search.look`, checked. -/
def lookChecked (m : Matrix) (current : Node) (s : Search) (newDirection : TDir) :
    Option Search :=
  let newX := (newDirection.ahead current.x current.y).1
  let newY := (newDirection.ahead current.x current.y).2
  if 0 ≤ newX ∧ newX < rows ∧ 0 ≤ newY ∧ newY < columns then
    (m.read newX newY).bind fun cell =>
      (s.readVisited newX newY).bind fun seen =>
        if cell ≠ .wall ∧ seen = false then s.pushChecked current newX newY newDirection
        else some s
  else some s

/-- `Search.loop`, checked. -/
def loopChecked (m : Matrix) (targetX targetY : ℤ) : ℕ → Search → Option TDir
  | 0, _ => none
  | fuel + 1, s =>
    if s.front = s.queue.length then some .null
    else
      s.readFront.bind fun current =>
        if current.x = targetX ∧ current.y = targetY then some current.direction
        else
          (directions.foldlM (lookChecked m current) { s with front := s.front + 1 }).bind
            (loopChecked m targetX targetY fuel)

end Search

/-- `bfs`, checked. -/
def bfsChecked (m : Matrix) (startX startY targetX targetY : ℤ) : Option TDir :=
  if InRange startX startY then
    (Search.start startX startY).loopChecked m targetX targetY (maxQueueSize + 1)
  else none

namespace Search

variable {m : Matrix} {s s' : Search} {current : Node} {targetX targetY : ℤ} {d : TDir}

/-- A look at a cell of the board. -/
theorem lookChecked_of_inRange (hin : InRange (d.ahead current.x current.y).1
    (d.ahead current.x current.y).2) :
    s.lookChecked m current d
      = if m hin.row hin.column ≠ .wall
          ∧ s.visited (d.ahead current.x current.y).1 (d.ahead current.x current.y).2 = false
        then s.pushChecked current (d.ahead current.x current.y).1
          (d.ahead current.x current.y).2 d
        else some s := by
  unfold lookChecked
  refine (if_pos hin).trans ?_
  rw [Matrix.read_of_inRange hin, Option.bind_some, readVisited, if_pos hin, Option.bind_some]

/-- There is nothing to look at outside of the board. -/
theorem lookChecked_of_not_inRange (hout : ¬ InRange (d.ahead current.x current.y).1
    (d.ahead current.x current.y).2) : s.lookChecked m current d = some s :=
  if_neg hout

/-- A look that stays within the arrays is the look of the source. -/
theorem look_of_checked (h : s.lookChecked m current d = some s') :
    s.look m current d = some s' := by
  unfold look
  by_cases hin : InRange (d.ahead current.x current.y).1 (d.ahead current.x current.y).2
  · rw [lookChecked_of_inRange hin] at h
    refine (if_pos hin).trans ?_
    rw [Matrix.read_of_inRange hin, Option.map_some]
    by_cases hnew : m hin.row hin.column ≠ .wall
        ∧ s.visited (d.ahead current.x current.y).1 (d.ahead current.x current.y).2 = false
    · rw [if_pos hnew, pushChecked] at h
      rw [if_pos hnew]
      by_cases hroom : s.queue.length < maxQueueSize
      · rw [if_pos ⟨hroom, hin⟩] at h
        rw [if_pos hroom]
        exact h
      · rw [if_neg (fun hc => hroom hc.1)] at h
        exact absurd h.symm (Option.some_ne_none _)
    · rw [if_neg hnew] at h ⊢
      exact h
  · rw [lookChecked_of_not_inRange hin] at h
    exact (if_neg hin).trans h

theorem foldlM_look_of_checked {ds : List TDir}
    (h : ds.foldlM (lookChecked m current) s = some s') :
    ds.foldlM (look m current) s = some s' := by
  induction ds generalizing s with
  | nil => exact h
  | cons d ds ih =>
    rw [List.foldlM_cons] at h ⊢
    obtain ⟨s₁, hlook, hrest⟩ := Option.bind_eq_some_iff.mp h
    rw [look_of_checked hlook]
    exact ih hrest

/-- **A search that stays within its arrays is the search of the source.** -/
theorem loop_of_checked {fuel : ℕ} (h : s.loopChecked m targetX targetY fuel = some d) :
    s.loop m targetX targetY fuel = some d := by
  induction fuel generalizing s with
  | zero => exact absurd h.symm (Option.some_ne_none _)
  | succ fuel ih =>
    unfold loopChecked at h
    unfold loop
    by_cases hend : s.front = s.queue.length
    · rw [if_pos hend] at h ⊢
      exact h
    · rw [if_neg hend] at h ⊢
      obtain ⟨current, hread, hrest⟩ := Option.bind_eq_some_iff.mp h
      have hcurrent : (s.queue[s.front]?).bind (fun index => s.nodes[index]?) = some current := by
        unfold readFront at hread
        by_cases hfront : s.front < maxQueueSize
        · rw [if_pos hfront] at hread
          obtain ⟨index, hindex, hnode⟩ := Option.bind_eq_some_iff.mp hread
          rw [hindex, Option.bind_some]
          by_cases hi : index < maxQueueSize
          · rw [if_pos hi] at hnode
            exact hnode
          · rw [if_neg hi] at hnode
            exact absurd hnode.symm (Option.some_ne_none _)
        · rw [if_neg hfront] at hread
          exact absurd hread.symm (Option.some_ne_none _)
      rw [hcurrent]
      dsimp only
      by_cases htarget : current.x = targetX ∧ current.y = targetY
      · rw [if_pos htarget] at hrest ⊢
        exact hrest
      · rw [if_neg htarget] at hrest ⊢
        obtain ⟨s₁, hfold, hloop⟩ := Option.bind_eq_some_iff.mp hrest
        rw [foldlM_look_of_checked hfold]
        exact ih hloop

/-! ## What the traversal maintains -/

/-- The cells found. -/
def cells (s : Search) : List (ℤ × ℤ) := s.nodes.map Node.cell

/-- The direction stored with a node: none at the start, and the first step of
a shortest path elsewhere. -/
structure Labelled (m : Matrix) (origin : ℤ × ℤ) (n : Node) : Prop where
  start : n.direction = .null → n.cell = origin
  leads : n.direction ≠ .null → Leads m.Step origin (n.direction.ahead origin.1 origin.2) n.cell

/-- **The invariant of the search**, while it tries the directions of the
node at index `front`. -/
structure Explores (m : Matrix) (origin : ℤ × ℤ) (s : Search) (front : ℕ) : Prop where
  frontier : Frontier m.Step origin s.cells front
  inRange : ∀ c ∈ s.cells, InRange c.1 c.2
  queue : s.queue = List.range s.nodes.length
  visited : ∀ c, s.visited c.1 c.2 = true ↔ c ∈ s.cells
  label : ∀ n ∈ s.nodes, Labelled m origin n

variable {origin : ℤ × ℤ} {front : ℕ}

theorem explores_start {startX startY : ℤ} (h : InRange startX startY) :
    Explores m (startX, startY) (Search.start startX startY) 0 where
  frontier := Frontier.start m.Step (startX, startY)
  inRange := by
    intro c hc
    rw [List.mem_singleton.mp hc]
    exact h
  queue := rfl
  visited := by
    intro c
    show decide (c.1 = startX ∧ c.2 = startY) = true ↔ c ∈ [(startX, startY)]
    rw [decide_eq_true_iff, List.mem_singleton, Prod.ext_iff]
  label := by
    intro n hn
    rw [List.mem_singleton.mp hn]
    exact ⟨fun _ => rfl, fun hne => absurd rfl hne⟩

/-- **The direction of a new node** is the step just made where it is found
from the start, and the one of the node it is found from otherwise. -/
theorem Labelled.push (hl : Labelled m origin current) (hd : d ∈ directions)
    (hstep : m.Step current.cell (d.ahead current.x current.y))
    (hdist : dist m.Step origin (d.ahead current.x current.y)
      = dist m.Step origin current.cell + 1) :
    Labelled m origin ⟨(d.ahead current.x current.y).1, (d.ahead current.x current.y).2,
      if current.direction = .null then d else current.direction⟩ := by
  by_cases hcur : current.direction = .null
  · rw [if_pos hcur]
    have hne : d ≠ .null := by
      rintro rfl
      exact absurd hd (by decide)
    refine ⟨fun hnull => absurd hnull hne, fun _ => ?_⟩
    obtain rfl := hl.start hcur
    rw [dist_self] at hdist
    exact Leads.of_step hstep hdist
  · rw [if_neg hcur]
    exact ⟨fun hnull => absurd hnull hcur, fun _ => (hl.leads hcur).snoc hstep hdist⟩

namespace Explores

theorem length_eq (hs : Explores m origin s front) : s.queue.length = s.nodes.length := by
  rw [hs.queue, List.length_range]

/-- The arrays are large enough for what has been found. -/
theorem length_le (hs : Explores m origin s front) : s.nodes.length ≤ maxQueueSize := by
  have hle := length_le_of_nodup hs.frontier.nodup hs.inRange
  rwa [cells, List.length_map] at hle

/-- The cell of the current node is the one the traversal is at. -/
theorem getElem?_cells (hc : s.nodes[front]? = some current) :
    s.cells[front]? = some current.cell := by
  rw [cells, List.getElem?_map, hc]
  rfl

/-- **A new cell finds room**, and putting it into the queue keeps the
invariant. -/
theorem push (hs : Explores m origin s front) (hc : s.nodes[front]? = some current)
    (hd : d ∈ directions)
    (hopen : m.Open (d.ahead current.x current.y).1 (d.ahead current.x current.y).2)
    (hfresh : d.ahead current.x current.y ∉ s.cells) :
    s.queue.length < maxQueueSize
      ∧ Explores m origin (s.push current (d.ahead current.x current.y).1
        (d.ahead current.x current.y).2 d) front := by
  have hstep : m.Step current.cell (d.ahead current.x current.y) :=
    Matrix.step_iff.mpr ⟨hopen, d, hd, rfl⟩
  have hcell := getElem?_cells hc
  have hcells : (s.push current (d.ahead current.x current.y).1
      (d.ahead current.x current.y).2 d).cells = s.cells ++ [d.ahead current.x current.y] :=
    List.map_append
  have hin : ∀ c ∈ s.cells ++ [d.ahead current.x current.y], InRange c.1 c.2 := by
    intro c hmem
    rcases List.mem_append.mp hmem with hold | hlast
    · exact hs.inRange c hold
    · rw [List.mem_singleton.mp hlast]
      exact hopen.inRange
  have hfrontier := hs.frontier.push hcell hstep hfresh
  have hroom := length_le_of_nodup hfrontier.nodup hin
  rw [List.length_append, cells, List.length_map, ← hs.length_eq] at hroom
  refine ⟨hroom, ?_, ?_, ?_, ?_, ?_⟩
  · rw [hcells]
    exact hfrontier
  · rw [hcells]
    exact hin
  · show s.queue ++ [s.queue.length] = List.range (s.nodes ++ [_]).length
    rw [List.length_append, List.length_singleton, List.range_succ, ← hs.queue, hs.length_eq]
  · intro c
    show (decide (c.1 = (d.ahead current.x current.y).1 ∧ c.2 = (d.ahead current.x current.y).2)
      || s.visited c.1 c.2) = true ↔ _
    rw [hcells, List.mem_append, List.mem_singleton, Bool.or_eq_true, decide_eq_true_iff,
      hs.visited, or_comm, Prod.ext_iff]
  · intro n hn
    rcases List.mem_append.mp hn with hold | hlast
    · exact hs.label n hold
    · rw [List.mem_singleton.mp hlast]
      exact (hs.label current (List.mem_of_getElem? hc)).push hd hstep
        (hs.frontier.dist_eq hcell hstep hfresh)

/-- **One direction**: after it the neighbour has been found, if it is a cell
of the maze. -/
theorem look (hs : Explores m origin s front) (hc : s.nodes[front]? = some current)
    (hd : d ∈ directions) :
    ∃ s', s.lookChecked m current d = some s' ∧ Explores m origin s' front
      ∧ s'.front = s.front ∧ s.nodes <+: s'.nodes
      ∧ (m.Open (d.ahead current.x current.y).1 (d.ahead current.x current.y).2 →
        d.ahead current.x current.y ∈ s'.cells) := by
  by_cases hin : InRange (d.ahead current.x current.y).1 (d.ahead current.x current.y).2
  · rw [lookChecked_of_inRange hin]
    by_cases hnew : m hin.row hin.column ≠ .wall
        ∧ s.visited (d.ahead current.x current.y).1 (d.ahead current.x current.y).2 = false
    · have hfresh : d.ahead current.x current.y ∉ s.cells := by
        intro hmem
        have hseen := (hs.visited _).mpr hmem
        rw [hnew.2] at hseen
        exact Bool.false_ne_true hseen
      obtain ⟨hroom, hs'⟩ := hs.push hc hd (Matrix.Open.of_ne_wall hin hnew.1) hfresh
      rw [if_pos hnew, pushChecked, if_pos ⟨hroom, hin⟩]
      refine ⟨_, rfl, hs', rfl, List.prefix_append _ _, fun _ => ?_⟩
      rw [cells, Search.push, List.map_append]
      exact List.mem_append_right _ (List.mem_singleton_self _)
    · rw [if_neg hnew]
      refine ⟨s, rfl, hs, rfl, List.prefix_rfl, ?_⟩
      rintro ⟨cell, hread, hwall⟩
      rw [Matrix.read_of_inRange hin, Option.some_inj] at hread
      refine (hs.visited _).mp ?_
      by_contra hunseen
      exact hnew ⟨hread ▸ hwall, Bool.eq_false_of_not_eq_true hunseen⟩
  · exact ⟨s, lookChecked_of_not_inRange hin, hs, rfl, List.prefix_rfl,
      fun hopen => absurd hopen.inRange hin⟩

/-- **Several directions**, in any order. -/
theorem foldlM_look (hs : Explores m origin s front) (hc : s.nodes[front]? = some current)
    {ds : List TDir} (hds : ∀ d ∈ ds, d ∈ directions) :
    ∃ s', ds.foldlM (lookChecked m current) s = some s' ∧ Explores m origin s' front
      ∧ s'.front = s.front ∧ s.nodes <+: s'.nodes
      ∧ ∀ d ∈ ds, m.Open (d.ahead current.x current.y).1 (d.ahead current.x current.y).2 →
        d.ahead current.x current.y ∈ s'.cells := by
  induction ds generalizing s with
  | nil => exact ⟨s, rfl, hs, rfl, List.prefix_rfl, fun _ hd => absurd hd List.not_mem_nil⟩
  | cons d ds ih =>
    obtain ⟨s₁, hlook, hs₁, hfront₁, hpre₁, hfound₁⟩ := hs.look hc (hds d List.mem_cons_self)
    have hc₁ : s₁.nodes[front]? = some current := by
      obtain ⟨rest, hrest⟩ := hpre₁
      rw [← hrest, List.getElem?_append_left (List.getElem?_eq_some_iff.mp hc).1, hc]
    obtain ⟨s₂, hfold, hs₂, hfront₂, hpre₂, hfound₂⟩ :=
      ih hs₁ hc₁ (fun d' hd' => hds d' (List.mem_cons_of_mem d hd'))
    refine ⟨s₂, ?_, hs₂, hfront₂.trans hfront₁, hpre₁.trans hpre₂, ?_⟩
    · rw [List.foldlM_cons, hlook]
      exact hfold
    · intro d' hd' hopen
      rcases List.mem_cons.mp hd' with rfl | hlater
      · exact (hpre₂.map Node.cell).subset (hfound₁ hopen)
      · exact hfound₂ d' hlater hopen

/-- The node taken out of the queue is the one at index `front`. -/
theorem readFront (hs : Explores m origin s s.front) (hc : s.nodes[s.front]? = some current) :
    s.readFront = some current := by
  have hlt := (List.getElem?_eq_some_iff.mp hc).1
  have hmax : s.front < maxQueueSize := lt_of_lt_of_le hlt hs.length_le
  rw [Search.readFront, if_pos hmax, hs.queue, List.getElem?_range hlt, Option.bind_some,
    if_pos hmax, hc]

/-- **One iteration** that does not take the target: it keeps the invariant
and goes on to the next node. -/
theorem expand (hs : Explores m origin s s.front) (hc : s.nodes[s.front]? = some current) :
    ∃ s', directions.foldlM (lookChecked m current) { s with front := s.front + 1 } = some s'
      ∧ Explores m origin s' s'.front ∧ s'.front = s.front + 1 ∧ s'.front ≤ s'.nodes.length
      ∧ s'.cells.take s'.front = s.cells.take s.front ++ [current.cell] := by
  have hlt := (List.getElem?_eq_some_iff.mp hc).1
  have hs₀ : Explores m origin { s with front := s.front + 1 } s.front :=
    ⟨hs.frontier, hs.inRange, hs.queue, hs.visited, hs.label⟩
  obtain ⟨s', hfold, hs', hfront, ⟨rest, hrest⟩, hfound⟩ := hs₀.foldlM_look hc (fun _ hd => hd)
  have hnodes : s'.nodes = s.nodes ++ rest := hrest.symm
  have hc' : s'.nodes[s.front]? = some current := by
    rw [hnodes, List.getElem?_append_left hlt, hc]
  have hdone : ∀ c, m.Step current.cell c → c ∈ s'.cells := by
    intro c hstep
    obtain ⟨hopen, d, hd, hahead⟩ := Matrix.step_iff.mp hstep
    rw [← hahead] at hopen ⊢
    exact hfound d hd hopen
  have htake : s'.cells.take (s.front + 1) = s.cells.take s.front ++ [current.cell] := by
    have hcells : s'.cells = s.cells ++ rest.map Node.cell := by
      rw [cells, hnodes, List.map_append, cells]
    rw [List.take_add_one, getElem?_cells hc', hcells, List.take_append_of_le_length]
    · rfl
    · rw [cells, List.length_map]
      exact hlt.le
  refine ⟨s', hfold, ?_, hfront, ?_, ?_⟩
  · rw [hfront]
    exact ⟨hs'.frontier.advance (getElem?_cells hc') hdone, hs'.inRange, hs'.queue, hs'.visited,
      hs'.label⟩
  · rw [hfront]
    exact (List.getElem?_eq_some_iff.mp hc').1
  · rw [hfront]
    exact htake

end Explores

/-- **What a direction says of the target**: with none it is the start or out
of reach, and with one a shortest path to it begins that way. -/
structure Answers (m : Matrix) (origin target : ℤ × ℤ) (d : TDir) : Prop where
  null : d = .null → target = origin ∨ ¬ Reaches m.Step origin target
  first : d ≠ .null → Leads m.Step origin (d.ahead origin.1 origin.2) target

/-- **The search ends with an answer**, and accesses nothing out of bounds
on the way. The nodes taken out so far are not the target. -/
theorem Explores.loop {fuel : ℕ} (hs : Explores m origin s s.front)
    (hle : s.front ≤ s.nodes.length) (hmiss : (targetX, targetY) ∉ s.cells.take s.front)
    (hfuel : maxQueueSize < fuel + s.front) :
    ∃ d, s.loopChecked m targetX targetY fuel = some d
      ∧ Answers m origin (targetX, targetY) d := by
  induction fuel generalizing s with
  | zero =>
    rw [Nat.zero_add] at hfuel
    exact absurd (hle.trans hs.length_le) (Nat.not_le_of_lt hfuel)
  | succ fuel ih =>
    unfold loopChecked
    by_cases hend : s.front = s.queue.length
    · rw [if_pos hend]
      refine ⟨.null, rfl, fun _ => Or.inr fun hreach => hmiss ?_, fun hne => absurd rfl hne⟩
      have hall : s.cells.length ≤ s.front := by
        rw [cells, List.length_map, hend, hs.length_eq]
      rw [List.take_of_length_le hall]
      exact hs.frontier.mem_of_reaches hall hreach
    · have hlt : s.front < s.nodes.length :=
        lt_of_le_of_ne hle (fun he => hend (he.trans hs.length_eq.symm))
      have hc := List.getElem?_eq_getElem hlt
      generalize s.nodes[s.front] = current at hc
      rw [if_neg hend, hs.readFront hc, Option.bind_some]
      by_cases htarget : current.x = targetX ∧ current.y = targetY
      · have hcell : current.cell = (targetX, targetY) := Prod.ext htarget.1 htarget.2
        have hl := hs.label current (List.mem_of_getElem? hc)
        rw [if_pos htarget, ← hcell]
        exact ⟨_, rfl, fun hnull => Or.inl (hl.start hnull), hl.leads⟩
      · obtain ⟨s', hfold, hs', hfront, hle', htake⟩ := hs.expand hc
        rw [if_neg htarget, hfold, Option.bind_some]
        refine ih hs' hle' ?_ ?_
        · rw [htake]
          intro hmem
          rcases List.mem_append.mp hmem with hold | hlast
          · exact hmiss hold
          · have hcell := List.mem_singleton.mp hlast
            exact htarget ⟨(congrArg Prod.fst hcell).symm, (congrArg Prod.snd hcell).symm⟩
        · rw [hfront, ← Nat.add_assoc, Nat.add_right_comm]
          exact hfuel

end Search

/-- **`bfs` finds the first step of a shortest path.** From every cell of the
board it returns, with every access within its arrays and no cell dropped;
it returns `DT_NULL` exactly where the target is the start or out of reach,
and any other direction leads to a cell of the maze from which the target is
one step closer. -/
theorem bfs_shortest (m : Matrix) {startX startY : ℤ} (h : InRange startX startY)
    (targetX targetY : ℤ) :
    ∃ d, bfs m startX startY targetX targetY = some d
      ∧ bfsChecked m startX startY targetX targetY = some d
      ∧ (d = .null ↔ (targetX, targetY) = (startX, startY)
        ∨ ¬ Reaches m.Step (startX, startY) (targetX, targetY))
      ∧ (d ≠ .null → m.Open (d.ahead startX startY).1 (d.ahead startX startY).2
        ∧ ∃ n, Shortest m.Step (n + 1) (startX, startY) (targetX, targetY)
          ∧ Shortest m.Step n (d.ahead startX startY) (targetX, targetY)) := by
  have hstart : Search.Explores m (startX, startY) (Search.start startX startY) 0 :=
    Search.explores_start h
  obtain ⟨d, hloop, hd⟩ := hstart.loop (Nat.zero_le _)
    (List.not_mem_nil : (targetX, targetY) ∉ []) (Nat.lt_succ_self maxQueueSize)
  have hchecked : bfsChecked m startX startY targetX targetY = some d := by
    rw [bfsChecked, if_pos h]
    exact hloop
  have hbfs : bfs m startX startY targetX targetY = some d := by
    rw [bfs, if_pos h]
    exact Search.loop_of_checked hloop
  refine ⟨d, hbfs, hchecked, ⟨hd.null, ?_⟩, ?_⟩
  · intro hno
    by_contra hne
    have hfirst := hd.first hne
    rcases hno with hsame | hout
    · exact hfirst.ne hsame
    · exact hout hfirst.reaches
  · intro hne
    have hfirst := hd.first hne
    exact ⟨hfirst.step.2, hfirst.shortest⟩

/-- A board without walls: the search from a corner to the cell beside it. -/
theorem bfs_shortest_corner :
    InRange 0 0 ∧ ∃ d, bfs (fun _ _ => .food) 0 0 0 1 = some d ∧ d ≠ .null
      ∧ Shortest (Matrix.Step fun _ _ => .food) 0 (d.ahead 0 0) (0, 1) := by
  have hstep : Matrix.Step (fun _ _ => .food) (0, 0) (0, 1) :=
    ⟨by decide, .food, rfl, by decide⟩
  have hcorner : InRange 0 0 := by decide
  obtain ⟨d, hbfs, -, hnull, hfirst⟩ := bfs_shortest (fun _ _ => .food) hcorner 0 1
  have hne : d ≠ .null := by
    intro hd
    rcases hnull.mp hd with hsame | hout
    · exact absurd hsame (by decide)
    · exact hout ⟨1, Walk.snoc (Walk.nil _) hstep⟩
  obtain ⟨-, n, hstart, hahead⟩ := hfirst hne
  have hn : n = 0 := Nat.le_zero.mp (Nat.le_of_succ_le_succ
    (hstart.le 1 (Walk.snoc (Walk.nil _) hstep)))
  exact ⟨hcorner, d, hbfs, hne, hn ▸ hahead⟩

end ZeOS.Game
