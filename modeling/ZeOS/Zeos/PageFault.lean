import Mathlib.Data.Nat.Digits.Lemmas
import ZeOS.Zeos.Console

/-!
# What a page fault prints

`pagefault_routine` of the kernel in `zeos/` prints the address of the
instruction that faulted, in base 16, and stays in a loop. The digits come
out of the division last one first, and are kept in an array until they are
printed.

The array is long enough for any address. What is printed is not always a
number: a digit from ten on is counted from `A` as it is, so that `A` itself
comes out as `K`, and the address 0 has no digit at all.
-/

namespace ZeOS.Zeos

open Practica (Console)

/-- The character for a digit. -/
def hexChar (restante : ℕ) : Byte :=
  if restante < 10 then BitVec.ofNat 8 (restante + 48) else BitVec.ofNat 8 (restante + 65)

/-- The array `hexadecimal` with a mark for a store past its end, and `i`. -/
structure Digits where
  hexadecimal : ℕ → Byte
  i : ℕ
  overrun : Bool

namespace Digits

/-- `hexadecimal[i++] = c`. -/
def put (h : Digits) (c : Byte) : Digits where
  hexadecimal := Function.update h.hexadecimal h.i c
  i := h.i + 1
  overrun := h.overrun || !decide (h.i < 8)

theorem toNat_shiftRight_lt {eip : DWord} (h : eip ≠ 0) : (eip >>> 4).toNat < eip.toNat := by
  have hpos : eip.toNat ≠ 0 := fun he => h (BitVec.eq_of_toNat_eq he)
  rw [BitVec.toNat_ushiftRight, Nat.shiftRight_eq_div_pow]
  omega

/-- The loop of `pagefault_routine`. -/
def loop (h : Digits) (eip : DWord) : Digits :=
  if eip = 0 then h else (h.put (hexChar (eip % 16#32).toNat)).loop (eip >>> 4)
termination_by eip.toNat
decreasing_by exact toNat_shiftRight_lt ‹_›

/-- What the array holds so far. -/
def written (h : Digits) : List Byte := (List.range h.i).map h.hexadecimal

theorem written_put (h : Digits) (c : Byte) : (h.put c).written = h.written ++ [c] := by
  unfold written put
  dsimp only
  rw [List.range_succ, List.map_append, List.map_singleton, Function.update_self]
  refine congrArg (· ++ [c]) (List.map_congr_left fun j hj => ?_)
  rw [Function.update_of_ne (List.mem_range.mp hj).ne]

/-- **The loop** puts the digits of the address in the array, last one
first. -/
theorem written_loop (h : Digits) (eip : DWord) :
    (h.loop eip).written = h.written ++ (Nat.digits 16 eip.toNat).map hexChar := by
  induction h, eip using loop.induct with
  | case1 h =>
    rw [loop, if_pos rfl]
    exact (List.append_nil _).symm
  | case2 h eip hne ih =>
    have hpos : 0 < eip.toNat := Nat.pos_of_ne_zero fun he => hne (BitVec.eq_of_toNat_eq he)
    have hshift : (eip >>> 4).toNat = eip.toNat / 16 := by
      rw [BitVec.toNat_ushiftRight, Nat.shiftRight_eq_div_pow]
    rw [loop, if_neg hne, ih, written_put, hshift, Nat.digits_def' (by decide) hpos, List.map_cons,
      List.append_assoc, List.singleton_append]
    rfl

/-- The mark is set when the array is full. -/
theorem overrun_loop (h : Digits) (eip : DWord) (ho : h.overrun = decide (8 < h.i)) :
    (h.loop eip).overrun = decide (8 < (h.loop eip).i) := by
  induction h, eip using loop.induct with
  | case1 h =>
    rw [loop, if_pos rfl]
    exact ho
  | case2 h eip hne ih =>
    rw [loop, if_neg hne]
    refine ih ?_
    show (h.overrun || !decide (h.i < 8)) = decide (8 < h.i + 1)
    rw [ho, ← decide_not, ← Bool.decide_or]
    refine decide_eq_decide.mpr ?_
    omega

end Digits

/-- The text before the address. -/
def prompt : String := "\nProcess generates a PAGE FAULT exception at EIP: 0x"

/-- `pagefault_routine`, up to the loop it ends in; what is in the array
before is given. -/
def pagefaultRoutine (_error eip : DWord) (hexadecimal : ℕ → Byte) (con : Console) :
    Digits × Console :=
  let h := Digits.loop ⟨hexadecimal, 0, false⟩ eip
  let con := printk con prompt
  let con := (List.range h.i).reverse.foldl (fun con j => printc con (h.hexadecimal j)) con
  (h, printk con "\n")

variable {error eip : DWord} {hexadecimal : ℕ → Byte} {con : Console}

/-- **The array is never overrun**: an address has eight digits at most. -/
theorem overrun_pagefaultRoutine (error eip : DWord) (hexadecimal : ℕ → Byte) (con : Console) :
    (pagefaultRoutine error eip hexadecimal con).1.overrun = false := by
  have hwritten : (Digits.loop ⟨hexadecimal, 0, false⟩ eip).written
      = (Nat.digits 16 eip.toNat).map hexChar := Digits.written_loop _ eip
  have hlen := congrArg List.length hwritten
  rw [Digits.written, List.length_map, List.length_range, List.length_map] at hlen
  have hle : (Nat.digits 16 eip.toNat).length ≤ 8 :=
    (Nat.digits_length_le_iff (by decide) _).mpr eip.isLt
  have hover := Digits.overrun_loop ⟨hexadecimal, 0, false⟩ eip rfl
  rw [hlen] at hover
  exact hover.trans (decide_eq_false (Nat.not_lt.mpr hle))

/-- **What is printed**: the digits of the address, first one first. -/
theorem console_pagefaultRoutine (error eip : DWord) (hexadecimal : ℕ → Byte) (con : Console) :
    (pagefaultRoutine error eip hexadecimal con).2
      = printAll con (text prompt ++ ((Nat.digits 16 eip.toNat).map hexChar).reverse
        ++ text "\n") := by
  have hwritten : (Digits.loop ⟨hexadecimal, 0, false⟩ eip).written
      = (Nat.digits 16 eip.toNat).map hexChar := Digits.written_loop _ eip
  rw [← hwritten, Digits.written, ← List.map_reverse, printAll_append, printAll_append]
  exact congrArg (fun con => printAll con (text "\n")) List.foldl_map.symm

/-! ## Hexadecimal numbers -/

/-- The value of a hexadecimal digit, 0 to 9 and A to F. -/
def hexValue (c : Byte) : Option ℕ :=
  if 48 ≤ c.toNat ∧ c.toNat ≤ 57 then some (c.toNat - 48)
  else if 65 ≤ c.toNat ∧ c.toNat ≤ 70 then some (c.toNat - 55)
  else none

/-- A hexadecimal numeral of a number. -/
def IsHex (digits : List Byte) (n : ℕ) : Prop :=
  digits ≠ [] ∧ ∃ values : List ℕ, digits.map hexValue = values.map some
    ∧ Nat.ofDigits 16 values.reverse = n

/-- **The character of a digit is one** below ten only. -/
theorem hexValue_hexChar {d : ℕ} (hd : d < 16) :
    hexValue (hexChar d) = if d < 10 then some d else none := by
  have hall : ∀ d < 16, hexValue (hexChar d) = if d < 10 then some d else none := by decide
  exact hall d hd

theorem isHex_map_hexChar {n : ℕ} :
    IsHex ((Nat.digits 16 n).map hexChar).reverse n ↔
      n ≠ 0 ∧ ∀ d ∈ Nat.digits 16 n, d < 10 := by
  have hlt : ∀ d ∈ Nat.digits 16 n, d < 16 := fun d hd => Nat.digits_lt_base (by decide) hd
  constructor
  · rintro ⟨hne, values, hvalues, -⟩
    refine ⟨fun hn => hne ?_, fun d hd => ?_⟩
    · rw [hn, Nat.digits_zero]
      rfl
    · by_contra hge
      have hmem : hexValue (hexChar d) ∈ values.map some := by
        rw [← hvalues]
        exact List.mem_map_of_mem (List.mem_reverse.mpr (List.mem_map_of_mem hd))
      rw [hexValue_hexChar (hlt d hd), if_neg hge] at hmem
      obtain ⟨v, -, hv⟩ := List.mem_map.mp hmem
      exact Option.some_ne_none v hv
  · rintro ⟨hn, hten⟩
    refine ⟨fun hnil => ?_, (Nat.digits 16 n).reverse, ?_, ?_⟩
    · rw [List.reverse_eq_nil_iff, List.map_eq_nil_iff, Nat.digits_eq_nil_iff_eq_zero] at hnil
      exact hn hnil
    · rw [← List.map_reverse, List.map_map]
      refine List.map_congr_left fun d hd => ?_
      have hd' := List.mem_reverse.mp hd
      exact (hexValue_hexChar (hlt d hd')).trans (if_pos (hten d hd'))
    · rw [List.reverse_reverse, Nat.ofDigits_digits]

/-! ## The address -/

/-- The routine prints the address between the `0x` and the end of the line,
and stays within its array. -/
def PrintsAddress (error eip : DWord) (hexadecimal : ℕ → Byte) (con : Console) : Prop :=
  (pagefaultRoutine error eip hexadecimal con).1.overrun = false
    ∧ ∃ digits, (pagefaultRoutine error eip hexadecimal con).2
        = printAll con (text prompt ++ digits ++ text "\n")
      ∧ IsHex digits eip.toNat

/-- The digits are all there is between the two texts. -/
theorem printsAddress_iff_isHex (error eip : DWord) (hexadecimal : ℕ → Byte) (con : Console) :
    PrintsAddress error eip hexadecimal con ↔
      IsHex ((Nat.digits 16 eip.toNat).map hexChar).reverse eip.toNat := by
  unfold PrintsAddress
  rw [console_pagefaultRoutine]
  constructor
  · rintro ⟨-, digits, heq, hhex⟩
    have hport := congrArg Console.port heq
    rw [port_printAll, port_printAll, List.append_cancel_left_eq, List.append_cancel_right_eq,
      List.append_cancel_left_eq] at hport
    exact hport ▸ hhex
  · exact fun hhex => ⟨overrun_pagefaultRoutine error eip hexadecimal con, _, rfl, hhex⟩

/-- **A page fault prints its address exactly if** the address is not 0 and
none of its digits in base 16 is ten or more. -/
theorem printsAddress_iff (error eip : DWord) (hexadecimal : ℕ → Byte) (con : Console) :
    PrintsAddress error eip hexadecimal con ↔
      eip ≠ 0 ∧ ∀ d ∈ Nat.digits 16 eip.toNat, d < 10 := by
  have hzero : eip.toNat ≠ 0 ↔ eip ≠ 0 :=
    not_congr ⟨fun h => BitVec.eq_of_toNat_eq h, fun h => h ▸ rfl⟩
  rw [printsAddress_iff_isHex, isHex_map_hexChar, hzero]

/-- **The address `0x11411a`** comes out as `11411K`. -/
theorem not_printsAddress : ¬ PrintsAddress 4 0x11411a#32 (fun _ => 0) Console.start := by
  intro hprints
  have hhex := (printsAddress_iff_isHex 4 0x11411a#32 (fun _ => 0) Console.start).mp hprints
  have hten : 10 ∈ Nat.digits 16 (0x11411a#32).toNat := by decide
  exact absurd ((isHex_map_hexChar.mp hhex).2 10 hten) (by decide)

end ZeOS.Zeos
