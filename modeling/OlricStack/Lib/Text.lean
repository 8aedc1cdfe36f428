import Mathlib.Data.Nat.Digits.Lemmas
import Mathlib.Tactic.IntervalCases
import Mathlib.Tactic.Common

/-!
# Bytes as text

Byte strings that have to become text: coercion to valid UTF-8, which replaces every byte that
starts no character by the replacement character and leaves exactly the valid strings as they are
(`Utf8.coerce_eq_self_iff`); base64 with padding; and decimal integers, with the reader that
refuses what does not fit into 64 bits.
-/

/-! ## UTF-8 -/

namespace Utf8

/-- The character at the front, if there is a well-formed one. -/
def decodeRune (s : List UInt8) : Option Char := s.toByteArray.utf8DecodeChar? 0

/-- The encoding of U+FFFD. -/
def replacement : List UInt8 := [0xEF, 0xBF, 0xBD]

/-- Coerce the rest of a string of which `n` more bytes belong to a character already read. -/
def coerceFrom : ℕ → List UInt8 → List UInt8
  | _, [] => []
  | n + 1, b :: bs => b :: coerceFrom n bs
  | 0, b :: bs =>
    match decodeRune (b :: bs) with
    | some c => b :: coerceFrom (c.utf8Size - 1) bs
    | none => replacement ++ coerceFrom 0 bs

/-- Replace every byte at which no character starts. -/
def coerce (s : List UInt8) : List UInt8 := coerceFrom 0 s

/-- The encodings of sequences of characters. -/
def Valid (s : List UInt8) : Prop := ∃ cs : List Char, s = cs.flatMap String.utf8EncodeChar

theorem valid_nil : Valid [] := ⟨[], rfl⟩

theorem Valid.char_append {s : List UInt8} (h : Valid s) (c : Char) :
    Valid (String.utf8EncodeChar c ++ s) := by
  obtain ⟨cs, rfl⟩ := h
  exact ⟨c :: cs, rfl⟩

theorem decodeRune_append (c : Char) (s : List UInt8) :
    decodeRune (String.utf8EncodeChar c ++ s) = some c := by
  rw [decodeRune, List.toByteArray_append]
  exact ByteArray.utf8DecodeChar?_utf8EncodeChar_append

theorem eq_append_of_decodeRune {s : List UInt8} {c : Char} (h : decodeRune s = some c) :
    ∃ t, s = String.utf8EncodeChar c ++ t := by
  obtain ⟨l, hl⟩ := ByteArray.exists_of_utf8DecodeChar?_eq_some h
  refine ⟨l.data.toList, ?_⟩
  have := congrArg (fun b => b.data.toList) hl
  simpa using this

/-- A string is empty, or starts with a character, or with a byte at which none starts. -/
theorem char_induction {P : List UInt8 → Prop} (nil : P [])
    (char : ∀ (c : Char) s, P s → P (String.utf8EncodeChar c ++ s))
    (byte : ∀ b bs, decodeRune (b :: bs) = none → P bs → P (b :: bs)) (s : List UInt8) : P s := by
  -- by the length, since a character may take several bytes
  induction n : s.length using Nat.strong_induction_on generalizing s with
  | _ n ih =>
    cases s with
    | nil => exact nil
    | cons b bs =>
      cases front : decodeRune (b :: bs) with
      | some c =>
        obtain ⟨t, ht⟩ := eq_append_of_decodeRune front
        have size := congrArg List.length ht
        rw [List.length_append, String.length_utf8EncodeChar] at size
        have pos := c.utf8Size_pos
        rw [ht]
        exact char c t (ih t.length (by omega) t rfl)
      | none => exact byte b bs front (ih bs.length (by rw [← n]; simp) bs rfl)

theorem coerceFrom_append (p s : List UInt8) :
    coerceFrom p.length (p ++ s) = p ++ coerce s := by
  induction p with
  | nil => rfl
  | cons b p ih => rw [List.length_cons, List.cons_append, coerceFrom, ih, List.cons_append]

theorem coerce_char_append (c : Char) (s : List UInt8) :
    coerce (String.utf8EncodeChar c ++ s) = String.utf8EncodeChar c ++ coerce s := by
  have front := decodeRune_append c s
  have size := String.length_utf8EncodeChar c
  have pos := c.utf8Size_pos
  cases bytes : String.utf8EncodeChar c with
  | nil =>
    rw [bytes, List.length_nil] at size
    omega
  | cons b p =>
    rw [bytes] at front size
    rw [List.length_cons] at size
    rw [List.cons_append] at front ⊢
    rw [coerce, coerceFrom, front]
    dsimp only
    rw [show c.utf8Size - 1 = p.length by omega, coerceFrom_append]
    rfl

theorem coerce_of_decodeRune_eq_none {b : UInt8} {bs : List UInt8}
    (h : decodeRune (b :: bs) = none) : coerce (b :: bs) = replacement ++ coerce bs := by
  rw [coerce, coerceFrom, h]
  rfl

theorem coerce_flatMap (cs : List Char) :
    coerce (cs.flatMap String.utf8EncodeChar) = cs.flatMap String.utf8EncodeChar := by
  induction cs with
  | nil => rfl
  | cons c cs ih => rw [List.flatMap_cons, coerce_char_append, ih]

/-- What a string is coerced to is valid. -/
theorem valid_coerce (s : List UInt8) : Valid (coerce s) := by
  induction s using char_induction with
  | nil => exact valid_nil
  | char c s ih =>
    rw [coerce_char_append]
    exact ih.char_append c
  | byte b bs front ih =>
    rw [coerce_of_decodeRune_eq_none front]
    exact ih.char_append (Char.ofNat 0xFFFD)

theorem coerce_eq_self_iff {s : List UInt8} : coerce s = s ↔ Valid s := by
  constructor
  · intro same
    rw [← same]
    exact valid_coerce s
  · rintro ⟨cs, rfl⟩
    exact coerce_flatMap cs

theorem coerce_eq_nil_iff {s : List UInt8} : coerce s = [] ↔ s = [] := by
  constructor
  · intro h
    cases s with
    | nil => rfl
    | cons b bs =>
      rw [coerce, coerceFrom] at h
      split at h <;> cases h
  · rintro rfl
    rfl

end Utf8

/-! ## Base64 -/

namespace Base64

/-- The sign that fills up the last group. -/
def padding : UInt8 := 61

/-- The character for six bits. -/
def digit (n : ℕ) : UInt8 :=
  if n < 26 then UInt8.ofNat (65 + n)
  else if n < 52 then UInt8.ofNat (97 + (n - 26))
  else if n < 62 then UInt8.ofNat (48 + (n - 52))
  else if n = 62 then 43
  else 47

/-- The six bits of a character of the alphabet. -/
def value (b : UInt8) : Option ℕ :=
  let n := b.toNat
  if 65 ≤ n ∧ n ≤ 90 then some (n - 65)
  else if 97 ≤ n ∧ n ≤ 122 then some (n - 97 + 26)
  else if 48 ≤ n ∧ n ≤ 57 then some (n - 48 + 52)
  else if n = 43 then some 62
  else if n = 47 then some 63
  else none

/-- Groups of three bytes as four digits. -/
def encode : List UInt8 → List UInt8
  | [] => []
  | [a] => [digit (a.toNat / 4), digit (a.toNat % 4 * 16), padding, padding]
  | [a, b] =>
    [digit (a.toNat / 4), digit (a.toNat % 4 * 16 + b.toNat / 16), digit (b.toNat % 16 * 4),
      padding]
  | a :: b :: c :: rest =>
    digit (a.toNat / 4) :: digit (a.toNat % 4 * 16 + b.toNat / 16) ::
      digit (b.toNat % 16 * 4 + c.toNat / 64) :: digit (c.toNat % 64) :: encode rest

/-- The inverse; line breaks inside the text are not allowed for. -/
def decode : List UInt8 → Option (List UInt8)
  | [] => some []
  | w :: x :: y :: z :: rest => do
    let w ← value w
    let x ← value x
    if y = padding then
      if z = padding ∧ rest = [] then return [UInt8.ofNat (w * 4 + x / 16)] else none
    else
      let y ← value y
      if z = padding then
        if rest = [] then
          return [UInt8.ofNat (w * 4 + x / 16), UInt8.ofNat (x % 16 * 16 + y / 4)]
        else none
      else
        let z ← value z
        let rest ← decode rest
        return UInt8.ofNat (w * 4 + x / 16) :: UInt8.ofNat (x % 16 * 16 + y / 4) ::
          UInt8.ofNat (y % 4 * 64 + z) :: rest
  | _ => none

theorem length_encode (bs : List UInt8) : (encode bs).length = (bs.length + 2) / 3 * 4 := by
  induction bs using encode.induct with
  | case1 => rfl
  | case2 => simp [encode]
  | case3 => simp [encode]
  | case4 a b c rest ih =>
    simp only [encode, List.length_cons, ih]
    omega

theorem value_digit {n : ℕ} (h : n < 64) : value (digit n) = some n := by
  interval_cases n <;> rfl

theorem digit_ne_padding {n : ℕ} (h : n < 64) : digit n ≠ padding := by
  interval_cases n <;> decide

/-- Bits put together again make the byte. -/
theorem ofNat_eq {n : ℕ} {b : UInt8} (h : n = b.toNat) : UInt8.ofNat n = b := by
  rw [h, UInt8.ofNat_toNat]

theorem decode_encode (bs : List UInt8) : decode (encode bs) = some bs := by
  induction bs using encode.induct with
  | case1 => rfl
  | case2 a =>
    have ha := a.toNat_lt
    have byte : UInt8.ofNat (a.toNat / 4 * 4 + a.toNat % 4 * 16 / 16) = a := ofNat_eq (by omega)
    simp only [encode, decode, value_digit (show a.toNat / 4 < 64 by omega),
      value_digit (show a.toNat % 4 * 16 < 64 by omega), Option.bind_eq_bind, Option.bind_some,
      byte]
    rfl
  | case3 a b =>
    have ha := a.toNat_lt
    have hb := b.toNat_lt
    have first : UInt8.ofNat (a.toNat / 4 * 4 + (a.toNat % 4 * 16 + b.toNat / 16) / 16) = a :=
      ofNat_eq (by omega)
    have second : UInt8.ofNat ((a.toNat % 4 * 16 + b.toNat / 16) % 16 * 16 +
        b.toNat % 16 * 4 / 4) = b := ofNat_eq (by omega)
    simp only [encode, decode, value_digit (show a.toNat / 4 < 64 by omega),
      value_digit (show a.toNat % 4 * 16 + b.toNat / 16 < 64 by omega),
      value_digit (show b.toNat % 16 * 4 < 64 by omega),
      if_neg (digit_ne_padding (show b.toNat % 16 * 4 < 64 by omega)), Option.bind_eq_bind,
      Option.bind_some, first, second]
    rfl
  | case4 a b c rest ih =>
    have ha := a.toNat_lt
    have hb := b.toNat_lt
    have hc := c.toNat_lt
    have first : UInt8.ofNat (a.toNat / 4 * 4 + (a.toNat % 4 * 16 + b.toNat / 16) / 16) = a :=
      ofNat_eq (by omega)
    have second : UInt8.ofNat ((a.toNat % 4 * 16 + b.toNat / 16) % 16 * 16 +
        (b.toNat % 16 * 4 + c.toNat / 64) / 4) = b := ofNat_eq (by omega)
    have third : UInt8.ofNat ((b.toNat % 16 * 4 + c.toNat / 64) % 4 * 64 + c.toNat % 64) = c :=
      ofNat_eq (by omega)
    simp only [encode, decode, value_digit (show a.toNat / 4 < 64 by omega),
      value_digit (show a.toNat % 4 * 16 + b.toNat / 16 < 64 by omega),
      value_digit (show b.toNat % 16 * 4 + c.toNat / 64 < 64 by omega),
      value_digit (show c.toNat % 64 < 64 by omega),
      if_neg (digit_ne_padding (show b.toNat % 16 * 4 + c.toNat / 64 < 64 by omega)),
      if_neg (digit_ne_padding (show c.toNat % 64 < 64 by omega)), Option.bind_eq_bind,
      Option.bind_some, first, second, third, ih]
    rfl

end Base64

/-! ## Decimal integers -/

namespace Decimal

/-- The digits of a number, most significant first; at least one. -/
def formatNat (n : ℕ) : List UInt8 :=
  if n = 0 then [48] else (Nat.digits 10 n).reverse.map fun d => UInt8.ofNat (48 + d)

/-- `strconv.FormatInt` with base ten. -/
def formatInt (n : ℤ) : List UInt8 := if n < 0 then 45 :: formatNat n.natAbs else formatNat n.natAbs

theorem length_formatNat_le {n k : ℕ} (lt : n < 10 ^ k) (pos : 0 < k) :
    (formatNat n).length ≤ k := by
  unfold formatNat
  split_ifs
  · exact pos
  · rw [List.length_map, List.length_reverse]
    exact (Nat.digits_length_le_iff (by decide) n).2 lt

/-- An integer of 64 bits, signed or not, has at most twenty characters. -/
theorem length_formatInt_le {n : ℤ} (ge : -9223372036854775808 ≤ n)
    (lt : n < 18446744073709551616) : (formatInt n).length ≤ 20 := by
  unfold formatInt
  split_ifs with negative
  · have digits : (formatNat n.natAbs).length ≤ 19 := length_formatNat_le (by omega) (by decide)
    rw [List.length_cons]
    omega
  · exact length_formatNat_le (by omega) (by decide)

/-- The number that digits spell, if they are digits. -/
def parseDigits (n : ℕ) : List UInt8 → Option ℕ
  | [] => some n
  | b :: bs => if 48 ≤ b ∧ b ≤ 57 then parseDigits (n * 10 + (b.toNat - 48)) bs else none

/-- At least one digit. -/
def parseNat : List UInt8 → Option ℕ
  | [] => none
  | bs => parseDigits 0 bs

/-- A minus sign or none, and digits. -/
def parseInt : List UInt8 → Option ℤ
  | [] => none
  | b :: bs =>
    if b = 45 then (parseNat bs).map fun n : ℕ => -(n : ℤ)
    else (parseNat (b :: bs)).map fun n : ℕ => (n : ℤ)

/-- A signed integer of 64 bits; one that does not fit is refused. -/
def parseInt64 : List UInt8 → Option ℤ
  | [] => none
  | b :: bs =>
    if b = 45 then
      (parseNat bs).bind fun n => if n ≤ 9223372036854775808 then some (-n) else none
    else
      (parseNat (if b = 43 then bs else b :: bs)).bind fun n =>
        if n < 9223372036854775808 then some n else none

theorem parseDigits_map {ds : List ℕ} (small : ∀ d ∈ ds, d < 10) (n : ℕ) :
    parseDigits n (ds.map fun d => UInt8.ofNat (48 + d)) =
      some (ds.foldl (fun n d => n * 10 + d) n) := by
  induction ds generalizing n with
  | nil => rfl
  | cons d ds ih =>
    have lt := small d List.mem_cons_self
    have byte : (UInt8.ofNat (48 + d)).toNat = 48 + d := by
      rw [UInt8.toNat_ofNat']
      omega
    have isDigit : 48 ≤ UInt8.ofNat (48 + d) ∧ UInt8.ofNat (48 + d) ≤ 57 := by
      constructor <;> rw [UInt8.le_iff_toNat_le, byte]
      · exact Nat.le_add_right 48 d
      · exact Nat.add_le_add_left (Nat.le_of_lt_succ lt) 48
    rw [List.map_cons, parseDigits, if_pos isDigit, byte, Nat.add_sub_cancel_left,
      ih fun x hx => small x (List.mem_cons_of_mem _ hx)]
    rfl

theorem foldl_reverse_digits (ds : List ℕ) :
    ds.reverse.foldl (fun n d => n * 10 + d) 0 = Nat.ofDigits 10 ds := by
  induction ds with
  | nil => rfl
  | cons d ds ih =>
    rw [List.reverse_cons, List.foldl_append, ih, Nat.ofDigits_cons]
    simp only [List.foldl_cons, List.foldl_nil]
    omega

/-- A written number starts with a digit. -/
theorem formatNat_eq_cons (n : ℕ) :
    ∃ b bs, formatNat n = b :: bs ∧ b ≠ 45 ∧ b ≠ 43 ∧ b ≠ 34 := by
  unfold formatNat
  split_ifs with zero
  · exact ⟨48, [], rfl, by decide, by decide, by decide⟩
  · cases h : (Nat.digits 10 n).reverse with
    | nil => exact absurd (List.reverse_eq_nil_iff.1 h) (Nat.digits_ne_nil_iff_ne_zero.2 zero)
    | cons d ds =>
      have mem : d ∈ (Nat.digits 10 n).reverse := by simp [h]
      have lt : d < 10 := Nat.digits_lt_base (by decide) (List.mem_reverse.1 mem)
      refine ⟨_, _, rfl, ?_⟩
      interval_cases d <;> decide

theorem parseNat_formatNat (n : ℕ) : parseNat (formatNat n) = some n := by
  have digits : parseDigits 0 (formatNat n) = some n := by
    unfold formatNat
    split_ifs with zero
    · rw [zero]
      rfl
    · rw [parseDigits_map fun d hd => Nat.digits_lt_base (by decide) (List.mem_reverse.1 hd),
        foldl_reverse_digits, Nat.ofDigits_digits]
  obtain ⟨b, bs, cons, -⟩ := formatNat_eq_cons n
  rw [cons] at digits ⊢
  exact digits

/-- A written integer does not start with a quote. -/
theorem formatInt_eq_cons (n : ℤ) : ∃ b bs, formatInt n = b :: bs ∧ b ≠ 34 := by
  unfold formatInt
  split_ifs
  · exact ⟨45, _, rfl, by decide⟩
  · obtain ⟨b, bs, cons, -, -, ne⟩ := formatNat_eq_cons n.natAbs
    exact ⟨b, bs, cons, ne⟩

theorem parseInt_formatInt (n : ℤ) : parseInt (formatInt n) = some n := by
  have parsed := parseNat_formatNat n.natAbs
  unfold formatInt
  split_ifs with negative
  · rw [parseInt, if_pos rfl, parsed, Option.map_some]
    congr 1
    omega
  · obtain ⟨b, bs, cons, ne, -⟩ := formatNat_eq_cons n.natAbs
    rw [cons] at parsed ⊢
    rw [parseInt, if_neg ne, parsed, Option.map_some]
    congr 1
    omega

theorem parseInt64_formatInt {n : ℤ} (ge : -9223372036854775808 ≤ n)
    (lt : n < 9223372036854775808) : parseInt64 (formatInt n) = some n := by
  have parsed := parseNat_formatNat n.natAbs
  unfold formatInt
  split_ifs with negative
  · rw [parseInt64, if_pos rfl, parsed, Option.bind_some, if_pos (by omega)]
    congr 1
    omega
  · obtain ⟨b, bs, cons, ne, ne', -⟩ := formatNat_eq_cons n.natAbs
    rw [cons] at parsed ⊢
    rw [parseInt64, if_neg ne, if_neg ne', parsed, Option.bind_some, if_pos (by omega)]
    congr 1
    omega

/-- The largest number of 64 bits, and the next one. -/
example : parseInt64 (formatInt 9223372036854775807) = some 9223372036854775807 ∧
    parseInt64 (formatInt 9223372036854775808) = none := by decide +kernel

/-- An unsigned integer of 64 bits, without a sign. -/
def parseUint64 (bs : List UInt8) : Option ℕ :=
  (parseNat bs).bind fun n => if n < 18446744073709551616 then some n else none

theorem parseUint64_formatNat {n : ℕ} (lt : n < 18446744073709551616) :
    parseUint64 (formatNat n) = some n := by
  rw [parseUint64, parseNat_formatNat, Option.bind_some, if_pos lt]

end Decimal
