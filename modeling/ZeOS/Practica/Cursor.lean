import Mathlib.Data.BitVec
import ZeOS.Run
import ZeOS.Writes
import ZeOS.Practica.Console
import ZeOS.Practica.Libc

/-!
# The cursor

All that writes to the screen is `printc`, at the cursor, and the cursor is
two bytes that several entry points move. No matter which, between them it
stays in the 25 rows of 80 columns. Read as one number, `80 * y + x`, it
counts the characters printed modulo 2000, and a text without newlines is a
run of writes to the cells it counts.
-/

namespace ZeOS.Practica

namespace Console

/-! ## The entry points -/

/-- `set_xy`. -/
def setXy (con : Console) (mx my : Byte) : Console := { con with x := mx, y := my }

/-- `printc_xy`. -/
def printcXy (con : Console) (mx my c : Byte) : Console :=
  let cx := con.x
  let cy := con.y
  let con := { con with x := mx, y := my }
  let con := con.printc c
  { con with x := cx, y := cy }

/-- The loop of `printk` from an index on, for a number of rounds. -/
def printkLoop (string : ℕ → Byte) : ℕ → ℕ → Console → Option Console
  | 0, _, _ => none
  | fuel + 1, i, con =>
    if string i ≠ 0 then printkLoop string fuel (i + 1) (con.printc (string i)) else some con

/-- `printk`. -/
def printk (con : Console) (string : ℕ → Byte) (fuel : ℕ) : Option Console :=
  printkLoop string fuel 0 con

/-- `set_text_color`. -/
def setTextColor (con : Console) (fg bg : DWord) : Console :=
  let color : Word := (fg.setWidth 8).setWidth 16 ||| ((bg.setWidth 8).setWidth 16 <<< 4)
  { con with color := color <<< 8 }

/-- `sys_gotoxy`. -/
def sysGotoxy (con : Console) (x y : DWord) : ℤ × Console :=
  if 80 ≤ x.toInt ∨ x.toInt < 0 then (-eINVAL, con)
  else if 25 ≤ y.toInt ∨ y.toInt < 0 then (-eINVAL, con)
  else (1, con.setXy (x.setWidth 8) (y.setWidth 8))

/-- `sys_set_color`. -/
def sysSetColor (con : Console) (fg bg : DWord) : ℤ × Console :=
  if fg.toInt < 0 ∨ 15 < fg.toInt then (-eINVAL, con)
  else if bg.toInt < 0 ∨ 15 < bg.toInt then (-eINVAL, con)
  else (1, con.setTextColor fg bg)

/-- The value `sys_gotoxy` returns, whatever is on the screen. -/
theorem sysGotoxy_fst (con : Console) (x y : DWord) :
    (con.sysGotoxy x y).1 = Kernel.sysGotoxy x y := by
  unfold sysGotoxy Kernel.sysGotoxy
  split_ifs <;> rfl

theorem sysSetColor_fst (con : Console) (fg bg : DWord) :
    (con.sysSetColor fg bg).1 = Kernel.sysSetColor fg bg := by
  unfold sysSetColor Kernel.sysSetColor
  split_ifs <;> rfl

/-- **`printk`** prints the bytes before the first byte 0. -/
theorem printkLoop_eq (string : ℕ → Byte) (fuel i : ℕ) (con : Console) :
    printkLoop string fuel i con
      = (strlenLoop string fuel i).map
          fun n => con.printBytes (fun j => string (i + j)) (n - i) := by
  induction fuel generalizing i con with
  | zero => rfl
  | succ fuel ih =>
    rw [printkLoop, strlenLoop]
    by_cases hi : string i = 0
    · rw [if_neg (not_not.mpr hi), if_neg (not_not.mpr hi), Option.map_some, Nat.sub_self]
      rfl
    · rw [if_pos hi, if_pos hi, ih]
      refine Option.map_congr fun n hn => ?_
      have hle : i + 1 ≤ n := (strlenLoop_iff.mp hn).1.1
      rw [show n - i = 1 + (n - (i + 1)) by omega, printBytes_add]
      refine printBytes_congr _ fun j _ => ?_
      rw [Nat.add_assoc]

theorem printk_eq (con : Console) (string : ℕ → Byte) (fuel : ℕ) :
    con.printk string fuel = (strlen string fuel).map (con.printBytes string) := by
  rw [printk, printkLoop_eq, strlen]
  simp only [Nat.zero_add, Nat.sub_zero]

/-! ## The cursor after a character -/

/-- The cursor is on the screen. -/
def OnScreen (con : Console) : Prop := con.x.toNat < numColumns ∧ con.y.toNat < numRows

/-- The cell of the cursor. -/
def position (con : Console) : ℕ := con.y.toNat * numColumns + con.x.toNat

/-- The word a character is stored as. -/
def cell (con : Console) (c : Byte) : Word := c.setWidth 16 ||| con.color

variable {con : Console} {c : Byte} {bytes : ℕ → Byte} {n : ℕ}

theorem OnScreen.position_lt (h : con.OnScreen) : con.position < 2000 := by
  obtain ⟨hx, hy⟩ := h
  simp only [position, numColumns, numRows] at *
  omega

theorem toNat_newLine_y (con : Console) :
    con.newLine.y.toNat = (con.y.toNat + 1) % numRows := by
  have hlt : (con.y.toNat + 1) % numRows < numRows := Nat.mod_lt _ (by decide)
  rw [newLine, BitVec.toNat_ofNat, Nat.mod_eq_of_lt (hlt.trans (by decide))]

theorem onScreen_newLine (con : Console) : con.newLine.OnScreen := by
  refine ⟨(by decide : 0 < numColumns), ?_⟩
  rw [toNat_newLine_y]
  exact Nat.mod_lt _ (by decide)

theorem position_newLine (con : Console) :
    con.newLine.position = (con.y.toNat + 1) % numRows * numColumns := by
  rw [position, toNat_newLine_y]
  rfl

/-- The cell a character goes to. -/
theorem printc_screen (con : Console) (hc : c ≠ 10#8) :
    (con.printc c).screen = Function.update con.screen con.position (con.cell c) := by
  unfold printc
  dsimp only
  rw [if_neg hc]
  split_ifs <;> rfl

theorem printc_color (con : Console) (c : Byte) : (con.printc c).color = con.color := by
  unfold printc
  dsimp only
  split_ifs <;> rfl

/-- **The cursor moves by one**, with wrap at the end of the row and at the
last row. -/
theorem printc_cursor (h : con.OnScreen) (hc : c ≠ 10#8) :
    (con.printc c).OnScreen ∧ (con.printc c).position = (con.position + 1) % 2000 := by
  obtain ⟨hx, hy⟩ := h
  have hnext : (con.x + 1).toNat = con.x.toNat + 1 := by
    have hone : (1 : Byte).toNat = 1 := rfl
    rw [BitVec.toNat_add, hone, Nat.mod_eq_of_lt]
    simp only [numColumns] at hx
    omega
  unfold printc
  dsimp only
  rw [if_neg hc, hnext]
  split_ifs with hwrap
  · refine ⟨onScreen_newLine _, ?_⟩
    rw [position_newLine]
    simp only [position, numColumns, numRows] at *
    omega
  · refine ⟨⟨?_, hy⟩, ?_⟩
    · dsimp only
      omega
    · rw [position]
      dsimp only
      rw [hnext]
      simp only [position, numColumns, numRows] at *
      omega

theorem OnScreen.printc (h : con.OnScreen) (c : Byte) : (con.printc c).OnScreen := by
  by_cases hc : c = 10#8
  · rw [hc]
    exact onScreen_newLine _
  · exact (printc_cursor h hc).1

/-! ## The cursor after a text -/

theorem printBytes_succ (con : Console) (bytes : ℕ → Byte) (n : ℕ) :
    con.printBytes bytes (n + 1) = (con.printBytes bytes n).printc (bytes n) := by
  rw [printBytes_add]
  rfl

theorem OnScreen.printBytes (h : con.OnScreen) (bytes : ℕ → Byte) (n : ℕ) :
    (con.printBytes bytes n).OnScreen := by
  induction n with
  | zero => exact h
  | succ n ih =>
    rw [printBytes_succ]
    exact ih.printc _

theorem printBytes_color (con : Console) (bytes : ℕ → Byte) (n : ℕ) :
    (con.printBytes bytes n).color = con.color := by
  induction n with
  | zero => rfl
  | succ n ih => rw [printBytes_succ, printc_color, ih]

/-- **The cursor counts the characters.** -/
theorem printBytes_position (h : con.OnScreen) (hnl : ∀ i < n, bytes i ≠ 10#8) :
    (con.printBytes bytes n).position = (con.position + n) % 2000 := by
  induction n with
  | zero => exact (Nat.mod_eq_of_lt h.position_lt).symm
  | succ n ih =>
    rw [printBytes_succ, (printc_cursor (h.printBytes bytes n) (hnl n (Nat.lt_succ_self n))).2,
      ih (fun i hi => hnl i (Nat.lt_succ_of_lt hi)), Nat.mod_add_mod, Nat.add_assoc]

/-- **A text without newlines** goes to the cells from the cursor on. -/
theorem printBytes_screen (h : con.OnScreen) (hnl : ∀ i < n, bytes i ≠ 10#8) :
    (con.printBytes bytes n).screen
      = writeRun con.screen (fun i => (con.position + i) % 2000)
          (fun i => con.cell (bytes i)) n := by
  induction n with
  | zero => rfl
  | succ n ih =>
    have hnl' : ∀ i < n, bytes i ≠ 10#8 := fun i hi => hnl i (Nat.lt_succ_of_lt hi)
    rw [printBytes_succ, printc_screen _ (hnl n (Nat.lt_succ_self n)), printBytes_position h hnl',
      ih hnl', cell, printBytes_color]
    rfl

/-! ## The stores -/

/-- The stores of a `printc`. -/
def stores (con : Console) (c : Byte) : List (ℕ × Word) :=
  if c = 10#8 then [] else [(con.position, con.cell c)]

/-- The stores of a text, in order. -/
def storesOf (con : Console) (bytes : ℕ → Byte) (n : ℕ) : List (ℕ × Word) :=
  (List.range n).flatMap fun i => (con.printBytes bytes i).stores (bytes i)

/-- The screen after a list of stores. -/
def storeAll (screen : ℕ → Word) (l : List (ℕ × Word)) : ℕ → Word :=
  l.foldl (fun screen p => Function.update screen p.1 p.2) screen

theorem storeAll_append (screen : ℕ → Word) (l l' : List (ℕ × Word)) :
    storeAll screen (l ++ l') = storeAll (storeAll screen l) l' := List.foldl_append

/-- **The stores of a `printc`** are all it does to the screen. -/
theorem printc_storeAll (con : Console) (c : Byte) :
    (con.printc c).screen = storeAll con.screen (con.stores c) := by
  by_cases hc : c = 10#8
  · rw [stores, if_pos hc, hc]
    rfl
  · rw [stores, if_neg hc, printc_screen con hc]
    rfl

theorem printBytes_storeAll (con : Console) (bytes : ℕ → Byte) (n : ℕ) :
    (con.printBytes bytes n).screen = storeAll con.screen (con.storesOf bytes n) := by
  induction n with
  | zero => rfl
  | succ n ih =>
    rw [printBytes_succ, printc_storeAll, ih, storesOf, storesOf, List.range_succ,
      List.flatMap_append, storeAll_append, List.flatMap_singleton]

/-- A store at a cell of the screen: in a row and a column of it. -/
def AtCell (p : ℕ × Word) : Prop :=
  ∃ x < numColumns, ∃ y < numRows, p.1 = y * numColumns + x ∧ p.1 < 2000

theorem OnScreen.atCell (h : con.OnScreen) {p : ℕ × Word} (hp : p ∈ con.stores c) : AtCell p := by
  unfold stores at hp
  split_ifs at hp
  · exact absurd hp List.not_mem_nil
  · rw [List.mem_singleton.mp hp]
    exact ⟨con.x.toNat, h.1, con.y.toNat, h.2, rfl, h.position_lt⟩

theorem OnScreen.atCell_storesOf (h : con.OnScreen) {p : ℕ × Word}
    (hp : p ∈ con.storesOf bytes n) : AtCell p := by
  obtain ⟨i, -, hi⟩ := List.mem_flatMap.mp hp
  exact (h.printBytes bytes i).atCell hi

end Console

/-! ## Operations -/

/-- What is done to the console: a system call, in a state of the kernel and
with what its stack buffer holds on entry, or a routine of the kernel. -/
inductive ConsoleOp where
  | write (k : Kernel) (fd buffer nbytes : DWord) (localbuffer : ℕ → Byte)
  | printk (string : ℕ → Byte) (fuel : ℕ)
  | gotoxy (x y : DWord)
  | setColor (fg bg : DWord)
  | printcXy (mx my c : Byte)

namespace ConsoleOp

/-- The coordinates `printc_xy` is given are on the screen. -/
def InRange : ConsoleOp → Prop
  | .printcXy mx my _ => mx.toNat < numColumns ∧ my.toNat < numRows
  | _ => True

/-- The text an operation prints at the cursor, for a call whose buffer is not
on the screen. -/
def text : ConsoleOp → Option ((ℕ → Byte) × ℕ)
  | .write k fd buffer nbytes _ =>
    if Kernel.checkFd fd Kernel.escriptura = 0 ∧ 0 ≤ nbytes.toInt
        ∧ accessOk k.currentPt .verifyRead buffer nbytes = true
        ∧ k.mm.OffKernel k.sched.cr3 buffer.toNat nbytes.toNat then
      some (fun i => Mm.kernelLoad k.sched.cr3 k.mm (buffer.toNat + i), nbytes.toNat)
    else none
  | .printk string fuel => (strlen string fuel).map fun n => (string, n)
  | _ => none

end ConsoleOp

namespace Console

/-- An operation. It has no outcome if `printk` does not end. -/
def perform (con : Console) : ConsoleOp → Option Console
  | .write k fd buffer nbytes localbuffer =>
    some (con.sysWrite fd buffer nbytes localbuffer k).2.console
  | .printk string fuel => con.printk string fuel
  | .gotoxy x y => some (con.sysGotoxy x y).2
  | .setColor fg bg => some (con.sysSetColor fg bg).2
  | .printcXy mx my c => some (con.printcXy mx my c)

/-- What has gone out at the port, from one console to a later one. -/
def sent (con con' : Console) (i : ℕ) : Byte := con'.port.getD (con.port.length + i) 0

/-- The stores of an operation, in order. Those of a call are of the bytes it
has sent to the port, as `printc` sends each of them. -/
def opStores (con : Console) : ConsoleOp → List (ℕ × Word)
  | .printcXy mx my c => (con.setXy mx my).stores c
  | .write k fd buffer nbytes localbuffer =>
    let con' := (con.sysWrite fd buffer nbytes localbuffer k).2.console
    con.storesOf (con.sent con') (con'.port.length - con.port.length)
  | op => (op.text.map fun t => con.storesOf t.1 t.2).getD []

variable {con con' : Console} {op : ConsoleOp} {bytes : ℕ → Byte} {n : ℕ}

/-- `printc` sends its byte to the port. -/
theorem printc_port (con : Console) (c : Byte) : (con.printc c).port = con.port ++ [c] := by
  unfold printc
  dsimp only
  split_ifs <;> rfl

theorem printBytes_port (con : Console) (bytes : ℕ → Byte) (n : ℕ) :
    (con.printBytes bytes n).port = con.port ++ (List.range n).map bytes := by
  induction n with
  | zero => exact (List.append_nil _).symm
  | succ n ih =>
    rw [printBytes_succ, printc_port, ih, List.range_succ, List.map_append, List.append_assoc,
      List.map_singleton]

/-- The stores of a text are those of what the port has received. -/
theorem storesOf_sent (con : Console) (bytes : ℕ → Byte) (n : ℕ) :
    con.storesOf (con.sent (con.printBytes bytes n))
        ((con.printBytes bytes n).port.length - con.port.length)
      = con.storesOf bytes n := by
  have hsent : ∀ i < n, con.sent (con.printBytes bytes n) i = bytes i := by
    intro i hi
    rw [sent, printBytes_port, List.getD_append_right _ _ _ _ (Nat.le_add_right _ _),
      Nat.add_sub_cancel_left, List.getD_eq_getElem?_getD, List.getElem?_map,
      List.getElem?_range hi]
    rfl
  have hlen : (con.printBytes bytes n).port.length - con.port.length = n := by
    rw [printBytes_port, List.length_append, List.length_map, List.length_range,
      Nat.add_sub_cancel_left]
  rw [hlen, storesOf, storesOf]
  refine List.flatMap_congr fun i hi => ?_
  replace hi := List.mem_range.mp hi
  rw [hsent i hi, printBytes_congr con fun j hj => hsent j (hj.trans hi)]

/-- **A call prints bytes**, if only none. -/
theorem exists_sysWrite_console (con : Console) (k : Kernel) (fd buffer nbytes : DWord)
    (localbuffer : ℕ → Byte) :
    ∃ bytes n, (con.sysWrite fd buffer nbytes localbuffer k).2.console = con.printBytes bytes n := by
  by_cases hfd : Kernel.checkFd fd Kernel.escriptura ≠ 0
  · refine ⟨fun _ => 0, 0, ?_⟩
    rw [sysWrite, if_pos hfd]
    rfl
  by_cases hn : nbytes.toInt < 0
  · refine ⟨fun _ => 0, 0, ?_⟩
    rw [sysWrite, if_neg hfd, if_pos hn]
    rfl
  cases hacc : accessOk k.currentPt .verifyRead buffer nbytes with
  | false =>
    refine ⟨fun _ => 0, 0, ?_⟩
    rw [sysWrite, if_neg hfd, if_neg hn, hacc]
    rfl
  | true =>
    obtain rfl := Kernel.eq_one_of_checkFd (not_not.mp hfd)
    obtain ⟨w, hres, hp⟩ := con.printed_sysWrite localbuffer (Int.not_lt.mp hn) hacc
    obtain ⟨bytes, hcon, -⟩ := hp.console
    refine ⟨bytes, nbytes.toNat, ?_⟩
    rw [hres]
    exact hcon

/-- **A text is printed as it is**, by the call or by the kernel. -/
theorem perform_of_text (ht : op.text = some (bytes, n)) :
    con.perform op = some (con.printBytes bytes n) := by
  cases op with
  | write k fd buffer nbytes localbuffer =>
    rw [ConsoleOp.text] at ht
    split_ifs at ht with htests
    obtain ⟨hfd, hn, hacc, hoff⟩ := htests
    obtain rfl := Kernel.eq_one_of_checkFd hfd
    obtain ⟨w, hres, hp⟩ := con.printed_sysWrite localbuffer hn hacc
    obtain ⟨printed, hcon, hread⟩ := hp.console
    obtain ⟨rfl, rfl⟩ := Prod.mk.inj (Option.some_inj.mp ht)
    rw [perform, hres]
    exact congrArg some (hcon.trans (printBytes_congr con (hread hoff)))
  | printk string fuel =>
    obtain ⟨k, hk, heq⟩ := Option.map_eq_some_iff.mp ht
    obtain ⟨rfl, rfl⟩ := Prod.mk.inj heq
    rw [perform, printk_eq, hk]
    rfl
  | _ => cases ht

/-- An `int` that passes the tests of `sys_gotoxy` fits in a byte. -/
theorem toNat_setWidth_of_toInt {v : DWord} {bound : ℕ} (hbound : bound ≤ 128)
    (h : ¬ ((bound : ℤ) ≤ v.toInt ∨ v.toInt < 0)) : (v.setWidth 8).toNat < bound := by
  obtain ⟨hlt, hneg⟩ := not_or.mp h
  rw [toInt_eq_toNat_of_nonneg (Int.not_lt.mp hneg), Int.not_le, Int.ofNat_lt] at hlt
  rwa [BitVec.toNat_setWidth, Nat.mod_eq_of_lt (by omega)]

theorem OnScreen.sysGotoxy (h : con.OnScreen) (x y : DWord) : (con.sysGotoxy x y).2.OnScreen := by
  unfold Console.sysGotoxy
  split_ifs with hx hy
  · exact h
  · exact h
  · exact ⟨toNat_setWidth_of_toInt (by decide) hx, toNat_setWidth_of_toInt (by decide) hy⟩

theorem sysGotoxy_screen (con : Console) (x y : DWord) :
    (con.sysGotoxy x y).2.screen = con.screen := by
  unfold sysGotoxy
  split_ifs <;> rfl

/-- The colours change neither the cursor nor the screen. -/
theorem sysSetColor_eq (con : Console) (fg bg : DWord) :
    (con.sysSetColor fg bg).2 = { con with color := (con.sysSetColor fg bg).2.color } := by
  unfold sysSetColor
  split_ifs <;> rfl

/-- **What an operation can do**: print a text at the cursor, print a
character elsewhere, or leave the screen alone. -/
theorem perform_cases (h : con.perform op = some con') :
    (∃ bytes n, con' = con.printBytes bytes n ∧ con.opStores op = con.storesOf bytes n)
    ∨ (∃ mx my c, op = .printcXy mx my c ∧ con' = con.printcXy mx my c)
    ∨ con.opStores op = [] ∧ con'.screen = con.screen ∧ (con.OnScreen → con'.OnScreen) := by
  cases op with
  | write k fd buffer nbytes localbuffer =>
    obtain rfl := Option.some_inj.mp h
    obtain ⟨bytes, n, hcon⟩ := exists_sysWrite_console con k fd buffer nbytes localbuffer
    refine Or.inl ⟨bytes, n, hcon, ?_⟩
    rw [opStores, hcon]
    exact storesOf_sent con bytes n
  | printk string fuel =>
    rw [perform, printk_eq] at h
    obtain ⟨n, hn, rfl⟩ := Option.map_eq_some_iff.mp h
    have ht : (ConsoleOp.printk string fuel).text = some (string, n) :=
      congrArg (Option.map fun n => (string, n)) hn
    refine Or.inl ⟨string, n, rfl, ?_⟩
    exact congrArg (fun o => (Option.map _ o).getD []) ht
  | gotoxy x y =>
    obtain rfl := Option.some_inj.mp h
    exact Or.inr (Or.inr ⟨rfl, sysGotoxy_screen con x y, fun hon => hon.sysGotoxy x y⟩)
  | setColor fg bg =>
    obtain rfl := Option.some_inj.mp h
    rw [sysSetColor_eq]
    exact Or.inr (Or.inr ⟨rfl, rfl, fun hon => hon⟩)
  | printcXy mx my c =>
    obtain rfl := Option.some_inj.mp h
    exact Or.inr (Or.inl ⟨mx, my, c, rfl, rfl⟩)

/-- **One operation** leaves the cursor on the screen. -/
theorem OnScreen.perform (hon : con.OnScreen) (h : con.perform op = some con') :
    con'.OnScreen := by
  rcases perform_cases h with ⟨bytes, n, rfl, -⟩ | ⟨mx, my, c, -, rfl⟩ | ⟨-, -, hkeep⟩
  · exact hon.printBytes bytes n
  · exact hon
  · exact hkeep hon

/-- **The stores of an operation** are all it does to the screen. -/
theorem perform_storeAll (h : con.perform op = some con') :
    con'.screen = storeAll con.screen (con.opStores op) := by
  rcases perform_cases h with ⟨bytes, n, rfl, hst⟩ | ⟨mx, my, c, rfl, rfl⟩ | ⟨hst, hscreen, -⟩
  · rw [hst, printBytes_storeAll]
  · exact printc_storeAll (con.setXy mx my) c
  · rw [hst, hscreen]
    rfl

theorem OnScreen.atCell_opStores (hon : con.OnScreen) (hop : op.InRange)
    (h : con.perform op = some con') {p : ℕ × Word} (hp : p ∈ con.opStores op) : AtCell p := by
  rcases perform_cases h with ⟨bytes, n, -, hst⟩ | ⟨mx, my, c, rfl, -⟩ | ⟨hst, -⟩
  · rw [hst] at hp
    exact hon.atCell_storesOf hp
  · have hmoved : (con.setXy mx my).OnScreen := hop
    exact hmoved.atCell hp
  · rw [hst] at hp
    exact absurd hp List.not_mem_nil

/-- **The cursor**, after any operations: it is on the screen, the next
operation stores to cells of the screen only, and a text without newlines
goes to the cells counted from the cursor on, modulo 2000. -/
theorem cursor_of_run {screen : ℕ → Word} {ops : List ConsoleOp}
    (hrun : Run perform (fun _ op => op.InRange) { start with screen := screen } ops con) :
    (con.x.toNat < 80 ∧ con.y.toNat < 25)
    ∧ (∀ op con', op.InRange → con.perform op = some con' →
        con'.screen = storeAll con.screen (con.opStores op) ∧ ∀ p ∈ con.opStores op, AtCell p)
    ∧ ∀ op bytes n, op.text = some (bytes, n) → (∀ i < n, bytes i ≠ 10#8) →
        ∃ con', con.perform op = some con'
          ∧ con'.screen = writeRun con.screen (fun i => (con.position + i) % 2000)
              (fun i => con.cell (bytes i)) n
          ∧ con'.position = (con.position + n) % 2000 := by
  have hstart : start.OnScreen := ⟨by decide, by decide⟩
  have hon : con.OnScreen := hrun.invariant (fun _ _ _ hon _ hst => hon.perform hst) hstart
  refine ⟨hon, fun op con' hop h => ⟨perform_storeAll h, fun p hp => ?_⟩,
    fun op bytes n ht hnl => ?_⟩
  · exact hon.atCell_opStores hop h hp
  · exact ⟨_, perform_of_text ht, printBytes_screen hon hnl, printBytes_position hon hnl⟩

/-- After `sys_gotoxy(78, 24)` a text of four bytes wraps to the first row. -/
theorem cursor_of_run_wrap :
    ∃ con, Run perform (fun _ op => op.InRange) { start with screen := fun _ => 0 }
        ([] ++ [.gotoxy 78 24]) con
      ∧ ∃ con', con.perform (.printk (fun i => if i < 4 then 65 else 0) 5) = some con'
        ∧ con'.position = 2 := by
  have hrun : Run perform (fun _ op => op.InRange) { start with screen := fun _ => 0 }
      ([] ++ [.gotoxy 78 24]) (start.sysGotoxy 78 24).2 := Run.snoc (Run.nil _) trivial rfl
  obtain ⟨-, -, hprint⟩ := cursor_of_run hrun
  obtain ⟨con', hcon', -, hpos⟩ := hprint (.printk (fun i => if i < 4 then 65 else 0) 5) _ 4 rfl
    (by decide)
  exact ⟨_, hrun, con', hcon', hpos⟩

end Console

end ZeOS.Practica
