import ZeOS.Game.Board
import ZeOS.Practica.Keyboard

/-!
# The mailbox between the keyboard and the game

`read_keyboard` runs in one process and `start_game` in another, and one
word of shared memory is between them. The reader stores a direction there
if it finds the word 0, the game stores 0 there when it has taken one.
Either may be interrupted between any two of its accesses.

What a reader stores is decided by the character in its local `b`. Whether
`read` has put one there it does not ask; where it has not, `b` is what the
stack held.
-/

namespace ZeOS.Game

open Practica

/-- The value of a direction. -/
def TDir.code : TDir → ℤ
  | .null => 0
  | .up => 1
  | .down => 2
  | .left => 3
  | .right => 4

/-- The direction a character stands for: `w`, `s`, `a` and `d`. -/
def keyDirection (c : Byte) : Option ℤ :=
  if c = 0x77#8 then some TDir.up.code
  else if c = 0x73#8 then some TDir.down.code
  else if c = 0x61#8 then some TDir.left.code
  else if c = 0x64#8 then some TDir.right.code
  else none

/-- `read(b, 1)`, accepted: how many characters it returns, `b` after it and
the buffer after it. -/
def readOne (cb : CircularBuffer) (b : Byte) : ℕ × Byte × CircularBuffer :=
  if cb.isEmpty then (0, b, cb) else (1, cb.dequeue.1, cb.dequeue.2)

/-- Where the reader is. -/
inductive ReaderPhase
  /-- Before the test of the shared word. -/
  | test
  /-- Before `read`. -/
  | read
  /-- Before the stores that depend on `b`. -/
  | store
  /-- Before `yield`. -/
  | yield
deriving DecidableEq

/-- Where the game is. -/
inductive GamePhase
  /-- Before the test of the shared word. -/
  | test
  /-- Before the word is loaded into `direction`. -/
  | load
  /-- Before the direction is put into the list. -/
  | queue
  /-- Before 0 is stored in the word. -/
  | clear
  /-- In the rest of the iteration. -/
  | play
deriving DecidableEq

/-- Whether the reader has found the word 0 and not stored yet. -/
def ReaderPhase.reading : ReaderPhase → Bool
  | .read | .store => true
  | .test | .yield => false

/-- Whether the game has found a direction and not cleared the word yet. -/
def GamePhase.taking : GamePhase → Bool
  | .load | .queue | .clear => true
  | .test | .play => false

/-- The two processes, the word between them and the keyboard buffer. -/
structure Mailbox where
  cb : CircularBuffer
  word : ℤ
  reader : ReaderPhase
  /-- The local `b` of `read_keyboard`. -/
  b : Byte
  game : GamePhase
  /-- The locals of `start_game`. -/
  direction : ℤ
  moviments : ℤ

/-- A step of one of the parties. -/
inductive Turn
  /-- A key is typed. -/
  | key (c : Byte)
  /-- The reader goes on. What the stack holds where `b` is declared, and
  whether `access_ok` accepts the address of `b`, is given. -/
  | reader (rubbish : Byte) (accepted : Bool)
  /-- The game goes on. -/
  | game

namespace Mailbox

/-- A step of `read_keyboard`. -/
def readKeyboard (s : Mailbox) (rubbish : Byte) (accepted : Bool) : Mailbox :=
  match s.reader with
  | .test =>
    if s.word = 0 then { s with reader := .read, b := rubbish } else { s with reader := .yield }
  | .read =>
    if accepted then
      { s with reader := .store, b := (readOne s.cb s.b).2.1, cb := (readOne s.cb s.b).2.2 }
    else { s with reader := .store }
  | .store => { s with reader := .test, word := (keyDirection s.b).getD s.word, b := 0 }
  | .yield => { s with reader := .test }

/-- A step of the loop of `start_game`. -/
def startGame (s : Mailbox) : Mailbox :=
  match s.game with
  | .test => if s.word ≠ 0 then { s with game := .load } else { s with game := .play }
  | .load => { s with game := .queue, direction := s.word }
  | .queue => { s with game := .clear, moviments := s.direction }
  | .clear => { s with game := .play, word := 0 }
  | .play => { s with game := .test }

/-- Any of the steps. -/
def turn (s : Mailbox) : Turn → Mailbox
  | .key c => { s with cb := s.cb.enqueue c }
  | .reader rubbish accepted => s.readKeyboard rubbish accepted
  | .game => s.startGame

end Mailbox

/-! ## What has passed through -/

/-- What has passed through the mailbox. -/
structure Passed where
  /-- The characters `read` has returned. -/
  dequeued : List Byte
  /-- The one of them that has not been looked at. -/
  inFlight : List Byte
  /-- The directions the game has taken, up to storing 0. -/
  taken : List ℤ

/-- The directions of the characters that stand for one. -/
def directionsOf (cs : List Byte) : List ℤ := cs.filterMap keyDirection

/-- The direction in the shared word. -/
def slot (word : ℤ) : List ℤ := if word = 0 then [] else [word]

namespace Passed

/-- Before the first step. -/
def nothing : Passed := ⟨[], [], []⟩

/-- What has passed after a step. -/
def after (p : Passed) (s : Mailbox) : Turn → Passed
  | .key _ => p
  | .reader _ accepted =>
    match s.reader with
    | .read =>
      if accepted ∧ (readOne s.cb s.b).1 = 1 then
        { p with
          dequeued := p.dequeued ++ [(readOne s.cb s.b).2.1]
          inFlight := [(readOne s.cb s.b).2.1] }
      else p
    | .store => { p with inFlight := [] }
    | _ => p
  | .game =>
    match s.game with
    | .clear => { p with taken := p.taken ++ [s.moviments] }
    | _ => p

/-- A step, and what passes in it. Neither process ever has to stop. -/
def step (q : Mailbox × Passed) (t : Turn) : Option (Mailbox × Passed) :=
  some (q.1.turn t, q.2.after q.1 t)

/-- **The mailbox hands over every key once**: the directions taken, the one
in the word and the one of a character in flight are those of the characters
read, in order. -/
def Conserved (q : Mailbox × Passed) : Prop :=
  q.2.taken ++ slot q.1.word ++ directionsOf q.2.inFlight = directionsOf q.2.dequeued

instance (q : Mailbox × Passed) : Decidable (Conserved q) :=
  inferInstanceAs (Decidable (_ = _))

/-- What the two parties know of the word where they are. -/
structure Agreed (q : Mailbox × Passed) : Prop where
  reader : q.1.reader.reading = true → q.1.word = 0
  inFlight : q.2.inFlight = [] ∨ q.1.reader = .store ∧ q.2.inFlight = [q.1.b]
  game : q.1.game.taking = true → q.1.word ≠ 0
  direction : q.1.game = .queue → q.1.direction = q.1.word
  moviments : q.1.game = .clear → q.1.moviments = q.1.word

/-- The step does not look at a `b` that holds a key though `read` has given
no character. -/
def LooksAtRead (q : Mailbox × Passed) : Turn → Prop
  | .reader _ _ => q.1.reader = .store → q.2.inFlight = [] → keyDirection q.1.b = none
  | _ => True

end Passed

/-! ## Characters and directions -/

theorem slot_zero : slot 0 = [] := if_pos rfl

theorem slot_of_ne {word : ℤ} (h : word ≠ 0) : slot word = [word] := if_neg h

/-- No key stands for 0. -/
theorem keyDirection_ne_zero {c : Byte} {d : ℤ} (h : keyDirection c = some d) : d ≠ 0 := by
  unfold keyDirection at h
  split_ifs at h <;> exact Option.some_inj.mp h ▸ by decide

theorem directionsOf_append (cs ds : List Byte) :
    directionsOf (cs ++ ds) = directionsOf cs ++ directionsOf ds := List.filterMap_append

/-- What a store leaves in a word that was 0. -/
theorem slot_getD (c : Byte) : slot ((keyDirection c).getD 0) = directionsOf [c] := by
  unfold directionsOf
  cases hd : keyDirection c with
  | none =>
    rw [List.filterMap_cons_none hd]
    exact slot_zero
  | some d =>
    rw [List.filterMap_cons_some hd]
    exact slot_of_ne (keyDirection_ne_zero hd)

theorem directionsOf_singleton_eq_nil {c : Byte} :
    directionsOf [c] = [] ↔ keyDirection c = none := by
  unfold directionsOf
  cases hd : keyDirection c with
  | none => rw [List.filterMap_cons_none hd]; simp
  | some d => rw [List.filterMap_cons_some hd]; simp

/-- **`readOne` is `sys_read`** for one character at an address `access_ok`
accepts. -/
theorem readOne_eq_sysRead (k : Kernel) (addr : DWord) (b : Byte)
    (hok : accessOk k.currentPt .verifyWrite addr 1#32 = true) :
    (k.sysRead addr 1#32).1 = (readOne k.cb b).1
      ∧ (k.sysRead addr 1#32).2.cb = (readOne k.cb b).2.2
      ∧ ((readOne k.cb b).1 = 1 → (readOne k.cb b).2.1 = k.cb.peek 0) := by
  have hone : (1#32).toInt = 1 := by decide
  rw [Kernel.sysRead_eq, if_pos hok]
  unfold Kernel.readCount readOne
  rw [hone]
  by_cases he : k.cb.count = 0
  · have hempty : k.cb.isEmpty = true := decide_eq_true he
    rw [if_pos hempty, he]
    exact ⟨rfl, rfl, fun h => absurd h Nat.zero_ne_one⟩
  · have hempty : ¬ k.cb.isEmpty = true := fun h => he (of_decide_eq_true h)
    have hlt : ¬ (k.cb.count : ℤ) < 1 := by omega
    rw [if_neg hempty, if_neg hlt]
    exact ⟨rfl, rfl, fun _ => rfl⟩

namespace Passed

variable {q q' : Mailbox × Passed}

/-! ## One step -/

/-- No character is in flight before the reader is about to store. -/
theorem Agreed.inFlight_eq_nil (h : Agreed q) (hne : q.1.reader ≠ .store) : q.2.inFlight = [] := by
  rcases h.inFlight with hf | ⟨hf, -⟩
  · exact hf
  · exact absurd hf hne

theorem agreed_reader (h : Agreed q) (rubbish : Byte) (accepted : Bool) :
    Agreed (q.1.readKeyboard rubbish accepted, q.2.after q.1 (.reader rubbish accepted)) := by
  obtain ⟨s, p⟩ := q
  have hnil := h.inFlight_eq_nil
  obtain ⟨hreader, -, hgame, hdirection, hmoviments⟩ := h
  unfold Mailbox.readKeyboard Passed.after
  dsimp only at *
  cases hph : s.reader with
  | test =>
    rw [hph] at hnil
    dsimp only
    by_cases hw : s.word = 0
    · rw [if_pos hw]
      exact ⟨fun _ => hw, Or.inl (hnil nofun), hgame, hdirection, hmoviments⟩
    · rw [if_neg hw]
      exact ⟨nofun, Or.inl (hnil nofun), hgame, hdirection, hmoviments⟩
  | read =>
    rw [hph] at hnil hreader
    have hw := hreader rfl
    dsimp only
    by_cases hok : accepted = true
    · by_cases hone : (readOne s.cb s.b).1 = 1
      · rw [if_pos hok, if_pos ⟨hok, hone⟩]
        exact ⟨fun _ => hw, Or.inr ⟨rfl, rfl⟩, hgame, hdirection, hmoviments⟩
      · rw [if_pos hok, if_neg (fun hc => hone hc.2)]
        exact ⟨fun _ => hw, Or.inl (hnil nofun), hgame, hdirection, hmoviments⟩
    · rw [if_neg hok, if_neg (fun hc => hok hc.1)]
      exact ⟨fun _ => hw, Or.inl (hnil nofun), hgame, hdirection, hmoviments⟩
  | store =>
    rw [hph] at hreader
    -- the game has nothing in hand while the word is 0
    have hidle : ¬ s.game.taking = true := fun hg => hgame hg (hreader rfl)
    refine ⟨nofun, Or.inl rfl, fun hg => absurd hg hidle, fun hg => ?_, fun hg => ?_⟩
    · exact absurd (congrArg GamePhase.taking hg) hidle
    · exact absurd (congrArg GamePhase.taking hg) hidle
  | yield =>
    rw [hph] at hnil
    exact ⟨nofun, Or.inl (hnil nofun), hgame, hdirection, hmoviments⟩

theorem agreed_game (h : Agreed q) : Agreed (q.1.startGame, q.2.after q.1 .game) := by
  obtain ⟨s, p⟩ := q
  obtain ⟨hreader, hflight, hgame, hdirection, hmoviments⟩ := h
  unfold Mailbox.startGame Passed.after
  dsimp only at *
  cases hph : s.game with
  | test =>
    dsimp only
    by_cases hw : s.word ≠ 0
    · rw [if_pos hw]
      exact ⟨hreader, hflight, fun _ => hw, nofun, nofun⟩
    · rw [if_neg hw]
      exact ⟨hreader, hflight, nofun, nofun, nofun⟩
  | load =>
    rw [hph] at hgame
    exact ⟨hreader, hflight, fun _ => hgame rfl, fun _ => rfl, nofun⟩
  | queue =>
    rw [hph] at hgame
    exact ⟨hreader, hflight, fun _ => hgame rfl, nofun, fun _ => hdirection hph⟩
  | clear => exact ⟨fun _ => rfl, hflight, nofun, nofun, nofun⟩
  | play => exact ⟨hreader, hflight, nofun, nofun, nofun⟩

/-- **What the parties know** is kept by every step: the reader stores while
the word is 0, the game clears it while it is not, and neither can turn the
one into the other while the other party relies on it. -/
theorem Agreed.step (h : Agreed q) (t : Turn) : Agreed (q.1.turn t, q.2.after q.1 t) := by
  cases t with
  | key c => exact ⟨h.reader, h.inFlight, h.game, h.direction, h.moviments⟩
  | reader rubbish accepted => exact agreed_reader h rubbish accepted
  | game => exact agreed_game h

/-- **The reader hands over what it has read**, unless it looks at a `b` that
`read` has not written. -/
theorem conserved_reader (h : Agreed q) (hc : Conserved q) (rubbish : Byte) (accepted : Bool) :
    Conserved (q.1.readKeyboard rubbish accepted, q.2.after q.1 (.reader rubbish accepted))
      ↔ LooksAtRead q (.reader rubbish accepted) := by
  obtain ⟨s, p⟩ := q
  unfold Conserved at hc ⊢
  unfold LooksAtRead Mailbox.readKeyboard Passed.after
  have hreader := h.reader
  have hnil := h.inFlight_eq_nil
  have hflight := h.inFlight
  dsimp only at *
  cases hph : s.reader with
  | test =>
    refine iff_of_true ?_ nofun
    dsimp only
    split_ifs <;> exact hc
  | yield => exact iff_of_true hc nofun
  | read =>
    refine iff_of_true ?_ nofun
    have hnone : p.inFlight = [] := hnil (by rw [hph]; decide)
    dsimp only
    by_cases hok : accepted = true
    · by_cases hone : (readOne s.cb s.b).1 = 1
      · rw [if_pos hok, if_pos ⟨hok, hone⟩]
        show p.taken ++ slot s.word ++ directionsOf [(readOne s.cb s.b).2.1]
          = directionsOf (p.dequeued ++ [(readOne s.cb s.b).2.1])
        rw [directionsOf_append, ← hc, hnone]
        exact congrArg (· ++ _) (List.append_nil _).symm
      · rw [if_pos hok, if_neg (fun hc => hone hc.2)]
        exact hc
    · rw [if_neg hok, if_neg (fun hc => hok hc.1)]
      exact hc
  | store =>
    have hw : s.word = 0 := hreader (by rw [hph]; rfl)
    rw [hw, slot_zero, List.append_nil] at hc
    show p.taken ++ slot ((keyDirection s.b).getD s.word) ++ directionsOf [] = directionsOf p.dequeued
      ↔ (ReaderPhase.store = .store → p.inFlight = [] → keyDirection s.b = none)
    rw [hw, slot_getD, ← hc, List.append_assoc, List.append_right_inj]
    rcases hflight with hf | ⟨-, hf⟩
    · rw [hf]
      show directionsOf [s.b] ++ [] = [] ↔ _
      rw [List.append_nil, directionsOf_singleton_eq_nil]
      exact ⟨fun he _ _ => he, fun he => he rfl rfl⟩
    · rw [hf]
      exact iff_of_true (List.append_nil _) (fun _ he => absurd he (List.cons_ne_nil _ _))

/-- **The game takes what is in the word.** -/
theorem conserved_game (h : Agreed q) (hc : Conserved q) :
    Conserved (q.1.startGame, q.2.after q.1 .game) := by
  obtain ⟨s, p⟩ := q
  unfold Conserved at hc ⊢
  unfold Mailbox.startGame Passed.after
  have hgame := h.game
  have hmoviments := h.moviments
  dsimp only at *
  cases hph : s.game with
  | test =>
    dsimp only
    split_ifs <;> exact hc
  | load => exact hc
  | queue => exact hc
  | play => exact hc
  | clear =>
    rw [slot_of_ne (hgame (by rw [hph]; rfl))] at hc
    show p.taken ++ [s.moviments] ++ slot 0 ++ directionsOf p.inFlight = directionsOf p.dequeued
    rw [hmoviments hph, slot_zero, List.append_nil]
    exact hc

theorem Conserved.step (h : Agreed q) (hc : Conserved q) (t : Turn) :
    Conserved (q.1.turn t, q.2.after q.1 t) ↔ LooksAtRead q t := by
  cases t with
  | key c => exact iff_of_true hc trivial
  | reader rubbish accepted => exact conserved_reader h hc rubbish accepted
  | game => exact iff_of_true (conserved_game h hc) trivial

/-! ## A run -/

/-- **The mailbox hands over every key once exactly if the reader looks at
`b` only where it holds no key or `read` has written it**, and the word was 0
at the start. This is for every order of the steps of the two processes, with
keys typed at any time: after each of them the directions taken, the one in
the word and the one of the character the reader has in hand are those of
the characters read, in order, so none is overwritten, delivered twice or
invented. -/
theorem conserved_iff {s₀ : Mailbox} (hr : s₀.reader = .test) (hg : s₀.game = .test)
    {turns : List Turn} {q : Mailbox × Passed}
    (hrun : Run step (fun _ _ => True) (s₀, nothing) turns q) :
    (∀ before later u, turns = before ++ later →
        Run step (fun _ _ => True) (s₀, nothing) before u → Conserved u)
      ↔ s₀.word = 0 ∧ Run step (fun u t => True ∧ LooksAtRead u t) (s₀, nothing) turns q := by
  have hstart : Agreed (s₀, nothing) := by
    refine ⟨fun h => ?_, Or.inl rfl, fun h => ?_, fun h => ?_, fun h => ?_⟩
    · exact absurd ((congrArg ReaderPhase.reading hr).symm.trans h) Bool.false_ne_true
    · exact absurd ((congrArg GamePhase.taking hg).symm.trans h) Bool.false_ne_true
    · exact absurd (hg.symm.trans h) (by decide)
    · exact absurd (hg.symm.trans h) (by decide)
  have hiff (hzero : Conserved (s₀, nothing)) := hrun.always_iff (J := Conserved)
    (Q := LooksAtRead) (I := Agreed)
    (fun u t u' hu _ hst => Option.some_inj.mp hst ▸ hu.step t)
    (fun u t u' hu hcu _ hst => Option.some_inj.mp hst ▸ hcu.step hu t) hstart hzero
  have hword : Conserved (s₀, nothing) ↔ s₀.word = 0 := by
    show [] ++ slot s₀.word ++ [] = [] ↔ _
    by_cases hw : s₀.word = 0
    · rw [hw]
      exact iff_of_true rfl rfl
    · rw [slot_of_ne hw]
      exact iff_of_false (by simp) hw
  constructor
  · intro hall
    have hzero := hall [] turns (s₀, nothing) rfl (Run.nil _)
    exact ⟨hword.mp hzero, (hiff hzero).mp hall⟩
  · rintro ⟨hw, hgood⟩
    exact (hiff (hword.mpr hw)).mpr hgood

/-- A mailbox and a keyboard buffer with nothing in them. -/
def idle : Mailbox where
  cb := { buffer := fun _ => 0, readIndex := 0, writeIndex := 0, count := 0 }
  word := 0
  reader := .test
  b := 0
  game := .test
  direction := 0
  moviments := 0

/-- One more step of a run. -/
theorem run_turn {P : Mailbox × Passed → Turn → Prop} {turns : List Turn}
    (hrun : Run step P q turns q') (t : Turn) (hP : P q' t) :
    Run step P q (turns ++ [t]) (q'.1.turn t, q'.2.after q'.1 t) :=
  hrun.snoc hP rfl

/-- **A direction nobody has asked for**: the buffer is empty, and the stack
held a `w` where `b` is declared. -/
theorem not_conserved_rubbish : ∃ q,
    Run step (fun _ _ => True) (idle, nothing)
        [.reader 0x77#8 true, .reader 0 true, .reader 0 true] q ∧ ¬ Conserved q := by
  have hstart : Run step (fun _ _ => True) (idle, nothing) [] _ := Run.nil _
  have htest := run_turn hstart (.reader 0x77#8 true) trivial
  have hread := run_turn htest (.reader 0 true) trivial
  have hstore := run_turn hread (.reader 0 true) trivial
  exact ⟨_, hstore, by decide⟩

/-- A key read and stored. -/
theorem conserved_iff_key : ∃ q,
    Run step (fun _ _ => True) (idle, nothing)
        [.key 0x77#8, .reader 0x77#8 true, .reader 0 true, .reader 0 true] q
      ∧ ∀ before later u,
        [.key 0x77#8, .reader 0x77#8 true, .reader 0 true, .reader 0 true] = before ++ later →
          Run step (fun _ _ => True) (idle, nothing) before u → Conserved u := by
  have hstart : Run step (fun u t => True ∧ LooksAtRead u t) (idle, nothing) [] _ := Run.nil _
  have hkey := run_turn hstart (.key 0x77#8) ⟨trivial, trivial⟩
  have htest := run_turn hkey (.reader 0x77#8 true) ⟨trivial, nofun⟩
  have hread := run_turn htest (.reader 0 true) ⟨trivial, nofun⟩
  have hstore := run_turn hread (.reader 0 true) ⟨trivial, fun _ => nofun⟩
  have hrun := hstore.mono (fun _ _ _ => trivial)
  exact ⟨_, hrun, (conserved_iff rfl rfl hrun).mpr ⟨rfl, hstore⟩⟩

end Passed

end ZeOS.Game
