import Mathlib.Data.Nat.Digits.Lemmas
import ZeOS.Writes
import ZeOS.Practica.Mm

/-!
# Numbers in decimal

`itoa` and `strlen` of the practica's `libc.c`. The digits of a number come
out last one first, so `itoa` puts them in the buffer in that order and
exchanges them from both ends. Both loops are read on the text the buffer
holds so far: the first one appends the digits, the second one reverses it.
-/

namespace ZeOS.Practica

/-- A buffer: its bytes, and the offsets that have been loaded or stored. -/
structure Buffer where
  bytes : ℕ → Byte
  touched : Finset ℕ

attribute [ext] Buffer

namespace Buffer

def load (buf : Buffer) (i : ℕ) : Byte × Buffer :=
  (buf.bytes i, { buf with touched := insert i buf.touched })

def store (buf : Buffer) (i : ℕ) (c : Byte) : Buffer where
  bytes := Function.update buf.bytes i c
  touched := insert i buf.touched

/-- The first loop of `itoa`, with the index it ends at. -/
def extract (buf : Buffer) (a : ℤ) (i : ℕ) : Buffer × ℕ :=
  if 0 < a then
    (buf.store i (BitVec.ofInt 8 (a.tmod 10 + 48))).extract (a.tdiv 10) (i + 1)
  else (buf, i)
termination_by a.toNat
decreasing_by
  rw [Int.tdiv_eq_ediv_of_nonneg (by omega)]
  omega

/-- A round of the second loop. -/
def swap (buf : Buffer) (i i1 : ℕ) : Buffer :=
  let (c, buf) := buf.load i1
  let (d, buf) := buf.load (i - i1 - 1)
  (buf.store i1 d).store (i - i1 - 1) c

/-- The second loop of `itoa`. -/
def reverse (buf : Buffer) (i : ℕ) : Buffer :=
  (List.range (i / 2)).foldl (fun buf i1 => buf.swap i i1) buf

end Buffer

/-- `itoa`, on a buffer of which nothing has been touched. -/
def itoa (a : ℤ) (b : ℕ → Byte) : Buffer :=
  let buf : Buffer := ⟨b, ∅⟩
  if a = 0 then (buf.store 0 48).store 1 0
  else
    let (buf, i) := buf.extract a 0
    (buf.reverse i).store i 0

/-- The loop of `strlen` from an index on, for a number of rounds. -/
def strlenLoop (a : ℕ → Byte) : ℕ → ℕ → Option ℕ
  | 0, _ => none
  | fuel + 1, i => if a i ≠ 0 then strlenLoop a fuel (i + 1) else some i

/-- `strlen`. -/
def strlen (a : ℕ → Byte) (fuel : ℕ) : Option ℕ := strlenLoop a fuel 0

/-! ## The text in the buffer -/

/-- **What has been written**: a text from the start of the buffer on. Its
places are the ones touched, and beyond it the buffer is as it was. -/
structure Holds (b : ℕ → Byte) (text : List Byte) (buf : Buffer) : Prop where
  written : (List.range text.length).map buf.bytes = text
  touched : buf.touched = Finset.range text.length
  beyond : ∀ j, text.length ≤ j → buf.bytes j = b j

namespace Holds

variable {b : ℕ → Byte} {text : List Byte} {buf : Buffer}

theorem start (b : ℕ → Byte) : Holds b [] ⟨b, ∅⟩ := ⟨rfl, rfl, fun _ _ => rfl⟩

/-- A byte is appended. -/
theorem store (h : Holds b text buf) (c : Byte) :
    Holds b (text ++ [c]) (buf.store text.length c) where
  written := by
    have hlast : (buf.store text.length c).bytes text.length = c := Function.update_self _ _ _
    have hfirst : (List.range text.length).map (buf.store text.length c).bytes = text := by
      refine Eq.trans (List.map_congr_left fun j hj => ?_) h.written
      exact Function.update_of_ne (List.mem_range.mp hj).ne _ _
    rw [List.length_append, List.length_singleton, List.range_succ, List.map_append,
      List.map_singleton, hfirst, hlast]
  touched := by
    rw [List.length_append, List.length_singleton, Finset.range_add_one, ← h.touched]
    rfl
  beyond j hj := by
    rw [List.length_append, List.length_singleton] at hj
    exact (Function.update_of_ne (by omega) _ _).trans (h.beyond j (by omega))

/-- The byte at an index of the text. -/
theorem bytes_eq (h : Holds b text buf) {j : ℕ} (hj : j < text.length) :
    buf.bytes j = text[j] := by
  have hget := List.getElem_of_eq h.written (i := j) (by simpa using hj)
  rwa [List.getElem_map, List.getElem_range] at hget

end Holds

/-- A round of the second loop exchanges two bytes. -/
theorem Buffer.swap_bytes (buf : Buffer) {i i1 : ℕ} :
    (buf.swap i i1).bytes = exchange buf.bytes i1 (i - i1 - 1) := rfl

theorem Buffer.swap_touched (buf : Buffer) {i i1 : ℕ} (h : buf.touched = Finset.range i)
    (hi : i1 < i / 2) : (buf.swap i i1).touched = Finset.range i := by
  have h₁ : i1 ∈ Finset.range i := Finset.mem_range.mpr (by omega)
  have h₂ : i - i1 - 1 ∈ Finset.range i := Finset.mem_range.mpr (by omega)
  show insert (i - i1 - 1) (insert i1 (insert (i - i1 - 1) (insert i1 buf.touched))) = _
  rw [h]
  simp only [Finset.insert_eq_of_mem, h₁, h₂]

/-- **The second loop**, round by round. -/
theorem Buffer.foldl_swap (buf : Buffer) {i k : ℕ} (h : buf.touched = Finset.range i)
    (hk : k ≤ i / 2) :
    (List.range k).foldl (fun buf i1 => buf.swap i i1) buf
      = ⟨mirrored buf.bytes i k, Finset.range i⟩ := by
  induction k with
  | zero => rw [mirrored_zero, ← h, List.range_zero, List.foldl_nil]
  | succ k ih =>
    rw [List.range_succ, List.foldl_append, List.foldl_cons, List.foldl_nil, ih (by omega)]
    refine Buffer.ext ?_ (Buffer.swap_touched _ rfl hk)
    rw [Buffer.swap_bytes, exchange_mirrored hk]

/-- **The second loop** reverses the text. -/
theorem Holds.reverse {b : ℕ → Byte} {text : List Byte} {buf : Buffer} (h : Holds b text buf) :
    Holds b text.reverse (buf.reverse text.length) := by
  have hloop : buf.reverse text.length = _ := Buffer.foldl_swap buf h.touched le_rfl
  refine ⟨?_, ?_, fun j hj => ?_⟩
  · rw [hloop, List.length_reverse, map_mirrored_half, h.written]
  · rw [hloop, List.length_reverse]
  · rw [List.length_reverse] at hj
    rw [hloop]
    dsimp only
    rw [mirrored_half, if_neg (Nat.not_lt.mpr hj)]
    exact h.beyond j hj

/-- The character of a digit. -/
def digitChar (d : ℕ) : Byte := BitVec.ofNat 8 (d + 48)

/-- **The first loop** appends the digits of the number, last one first. -/
theorem Holds.extract {b : ℕ → Byte} (n : ℕ) {text : List Byte} {buf : Buffer}
    (h : Holds b text buf) :
    ∃ buf', buf.extract n text.length = (buf', (text ++ (Nat.digits 10 n).map digitChar).length)
      ∧ Holds b (text ++ (Nat.digits 10 n).map digitChar) buf' := by
  induction n using Nat.strong_induction_on generalizing text buf with
  | _ n ih =>
    rw [Buffer.extract]
    rcases Nat.eq_zero_or_pos n with hz | hpos
    · rw [if_neg (by omega), hz, Nat.digits_zero, List.map_nil, List.append_nil]
      exact ⟨buf, rfl, h⟩
    · have hchar : BitVec.ofInt 8 ((n : ℤ).tmod 10 + 48) = digitChar (n % 10) := by
        rw [Int.tmod_eq_emod_of_nonneg (by omega)]
        exact BitVec.ofInt_natCast 8 (n % 10 + 48)
      have hquot : (n : ℤ).tdiv 10 = ((n / 10 : ℕ) : ℤ) := by
        rw [Int.tdiv_eq_ediv_of_nonneg (by omega)]
        omega
      obtain ⟨buf', heq, hholds⟩ := ih (n / 10) (by omega) (h.store (digitChar (n % 10)))
      have hdigits : text ++ (Nat.digits 10 n).map digitChar
          = text ++ [digitChar (n % 10)] ++ (Nat.digits 10 (n / 10)).map digitChar := by
        rw [Nat.digits_def' (by decide) hpos, List.map_cons, List.append_cons]
      rw [if_pos (by omega), hchar, hquot, hdigits]
      rw [List.length_append, List.length_singleton] at heq
      exact ⟨buf', heq, hholds⟩

/-! ## Decimal numerals -/

/-- The value of a decimal digit. -/
def decValue (c : Byte) : Option ℕ :=
  if 48 ≤ c.toNat ∧ c.toNat ≤ 57 then some (c.toNat - 48) else none

/-- **The decimal numeral of a number**: digits with its value, and none that
could be left out. -/
structure IsDecimal (text : List Byte) (n : ℕ) : Prop where
  value : ∃ values : List ℕ, text.map decValue = values.map some
    ∧ Nat.ofDigits 10 values.reverse = n
  ne_nil : text ≠ []
  leading : text.head? = some (digitChar 0) → text.length = 1

/-- What `itoa` writes before the byte that ends the text. -/
def decimal (n : ℕ) : List Byte :=
  if n = 0 then [digitChar 0] else ((Nat.digits 10 n).map digitChar).reverse

theorem decValue_digitChar {d : ℕ} (hd : d < 10) : decValue (digitChar d) = some d := by
  have hall : ∀ d < 10, decValue (digitChar d) = some d := by decide
  exact hall d hd

theorem IsDecimal.ne_zero {text : List Byte} {n : ℕ} (h : IsDecimal text n) {c : Byte}
    (hc : c ∈ text) : c ≠ 0 := by
  rintro rfl
  obtain ⟨values, hvalues, -⟩ := h.value
  have hmem : decValue 0 ∈ values.map some := hvalues ▸ List.mem_map_of_mem hc
  obtain ⟨v, -, hv⟩ := List.mem_map.mp hmem
  have hnone : decValue 0 = none := by decide
  exact Option.some_ne_none v (hv.trans hnone)

theorem isDecimal_decimal (n : ℕ) : IsDecimal (decimal n) n := by
  unfold decimal
  by_cases hn : n = 0
  · rw [if_pos hn, hn]
    exact ⟨⟨[0], by decide, by decide⟩, by decide, fun _ => rfl⟩
  rw [if_neg hn]
  have hlt : ∀ d ∈ Nat.digits 10 n, d < 10 := fun d hd => Nat.digits_lt_base (by decide) hd
  have hne : Nat.digits 10 n ≠ [] := Nat.digits_ne_nil_iff_ne_zero.mpr hn
  refine ⟨⟨(Nat.digits 10 n).reverse, ?_, ?_⟩, ?_, fun hhead => ?_⟩
  · rw [← List.map_reverse, List.map_map]
    exact List.map_congr_left fun d hd => decValue_digitChar (hlt d (List.mem_reverse.mp hd))
  · rw [List.reverse_reverse, Nat.ofDigits_digits]
  · rwa [Ne, List.reverse_eq_nil_iff, List.map_eq_nil_iff]
  · rw [List.head?_reverse, List.getLast?_map, List.getLast?_eq_getLast_of_ne_nil hne,
      Option.map_some, Option.some_inj] at hhead
    have hdec := congrArg decValue hhead
    rw [decValue_digitChar (hlt _ (List.getLast_mem hne)), decValue_digitChar (by decide),
      Option.some_inj] at hdec
    exact absurd hdec (Nat.getLast_digit_ne_zero 10 hn)

theorem length_decimal (n : ℕ) : (decimal n).length = Nat.log 10 n + 1 := by
  unfold decimal
  by_cases hn : n = 0
  · rw [if_pos hn, hn, Nat.log_zero_right]
    rfl
  · rw [if_neg hn, List.length_reverse, List.length_map, Nat.length_digits 10 n (by decide) hn]

/-- **`itoa`** leaves the numeral and a byte 0. -/
theorem holds_itoa (n : ℕ) (b : ℕ → Byte) : Holds b (decimal n ++ [0]) (itoa n b) := by
  unfold itoa decimal
  by_cases hn : n = 0
  · rw [if_pos hn, if_pos (by omega)]
    exact ((Holds.start b).store 48).store 0
  · rw [if_neg hn, if_neg (by omega)]
    obtain ⟨buf, heq, h⟩ := (Holds.start b).extract n
    rw [List.nil_append] at heq h
    rw [List.length_nil] at heq
    rw [heq]
    have hstore := h.reverse.store 0
    rwa [List.length_reverse] at hstore

/-! ## The length of a text -/

/-- From an index on, the loop looks for the next byte 0. -/
theorem strlenLoop_iff {a : ℕ → Byte} {fuel i n : ℕ} :
    strlenLoop a fuel i = some n
      ↔ (i ≤ n ∧ n < i + fuel) ∧ a n = 0 ∧ ∀ j, i ≤ j → j < n → a j ≠ 0 := by
  induction fuel generalizing i with
  | zero => exact iff_of_false (fun h => Option.some_ne_none n h.symm) (fun h => by omega)
  | succ fuel ih =>
    rw [strlenLoop]
    by_cases hi : a i = 0
    · rw [if_neg (not_not.mpr hi), Option.some_inj]
      constructor
      · rintro rfl
        exact ⟨by omega, hi, fun j h₁ h₂ => absurd h₁ (Nat.not_le.mpr h₂)⟩
      · rintro ⟨hn, -, hfirst⟩
        by_contra hne
        exact hfirst i le_rfl (lt_of_le_of_ne hn.1 hne) hi
    · rw [if_pos hi, ih]
      constructor
      · rintro ⟨hn, hz, hfirst⟩
        refine ⟨by omega, hz, fun j h₁ h₂ => ?_⟩
        rcases Nat.eq_or_lt_of_le h₁ with rfl | hlt
        · exact hi
        · exact hfirst j hlt h₂
      · rintro ⟨hn, hz, hfirst⟩
        have hne : i ≠ n := fun he => hi (he ▸ hz)
        exact ⟨by omega, hz, fun j h₁ h₂ => hfirst j (by omega) h₂⟩

/-- **`strlen`** returns the index of the first byte 0, when it has the rounds
to come to it. -/
theorem strlen_iff {a : ℕ → Byte} {fuel n : ℕ} :
    strlen a fuel = some n ↔ n < fuel ∧ a n = 0 ∧ ∀ i < n, a i ≠ 0 := by
  rw [strlen, strlenLoop_iff]
  refine and_congr (by omega) (and_congr_right fun _ => ?_)
  exact forall_congr' fun j => ⟨fun h => h (Nat.zero_le j), fun h _ => h⟩

/-- The length of a text with no byte 0 in it. -/
theorem Holds.strlen {b : ℕ → Byte} {text : List Byte} {buf : Buffer}
    (h : Holds b (text ++ [0]) buf) (hz : ∀ c ∈ text, c ≠ 0) {fuel : ℕ}
    (hfuel : text.length < fuel) : strlen buf.bytes fuel = some text.length := by
  refine strlen_iff.mpr ⟨hfuel, ?_, fun i hi => ?_⟩
  · rw [h.bytes_eq (by simp), List.getElem_concat_length rfl]
  · rw [h.bytes_eq (by simp; omega), List.getElem_append_left hi]
    exact hz _ (List.getElem_mem hi)

/-! ## The round trip -/

/-- **`itoa` round-trips**: for every `int` that is not negative the buffer
ends with its decimal numeral and a byte 0, no more than 11 bytes of it have
been touched, and `strlen` counts the digits. -/
theorem itoa_roundtrip {a : ℤ} (ha : 0 ≤ a) (hmax : a < 2 ^ 31) (b : ℕ → Byte) :
    ∃ text, Holds b (text ++ [0]) (itoa a b) ∧ IsDecimal text a.toNat
      ∧ (itoa a b).touched ⊆ Finset.range 11
      ∧ text.length = Nat.log 10 a.toNat + 1
      ∧ ∀ fuel, text.length < fuel → strlen (itoa a b).bytes fuel = some text.length := by
  obtain ⟨n, rfl⟩ := Int.eq_ofNat_of_zero_le ha
  rw [Int.toNat_natCast]
  have h := holds_itoa n b
  have hdec := isDecimal_decimal n
  have hlog : Nat.log 10 n < 10 := Nat.log_lt_of_lt_pow' (by decide) (by omega)
  refine ⟨decimal n, h, hdec, ?_, length_decimal n, fun fuel hfuel => ?_⟩
  · rw [h.touched, List.length_append, length_decimal, List.length_singleton]
    exact Finset.range_mono (by omega)
  · exact h.strlen (fun c hc => hdec.ne_zero hc) hfuel

/-- The largest `int` has ten digits. -/
theorem itoa_roundtrip_max :
    ∃ text, Holds (fun _ => 0) (text ++ [0]) (itoa 2147483647 (fun _ => 0))
      ∧ IsDecimal text 2147483647 ∧ text.length = 10
      ∧ (itoa 2147483647 (fun _ => 0)).touched ⊆ Finset.range 11
      ∧ strlen (itoa 2147483647 (fun _ => 0)).bytes 11 = some 10 := by
  obtain ⟨text, h, hdec, htouched, hlen, hstr⟩ :=
    itoa_roundtrip (a := 2147483647) (by decide) (by decide) (fun _ => 0)
  have hten : text.length = 10 := hlen.trans (by decide)
  exact ⟨text, h, hdec, hten, htouched, hten ▸ hstr 11 (by omega)⟩

end ZeOS.Practica
