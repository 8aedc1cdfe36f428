import Mathlib.Algebra.Order.BigOperators.Group.List
import OlricStack.Lib.Text

/-!
# Text of JSON scalars

A byte string is read as a sequence of characters and of bytes at which no character starts
(`Utf8.runes`).  `Json.escape` writes such a sequence inside quotes: quotes, backslashes, control
characters, the characters special to HTML and the two line separators are escaped, and a byte that
is no character becomes the escape of U+FFFD.  A reader gets the coerced string (`unescape_escape`).
-/

/-! ## Characters of a byte string -/

namespace Utf8

/-- The characters of a string of which `n` more bytes belong to a character already read; `none`
is a byte at which no character starts. -/
def runesFrom : ℕ → List UInt8 → List (Option Char)
  | _, [] => []
  | n + 1, _ :: bs => runesFrom n bs
  | 0, b :: bs =>
    match decodeRune (b :: bs) with
    | some c => some c :: runesFrom (c.utf8Size - 1) bs
    | none => none :: runesFrom 0 bs

/-- The runes of a text; `none` is a byte that belongs to none. -/
def runes (s : List UInt8) : List (Option Char) := runesFrom 0 s

theorem runesFrom_append (p s : List UInt8) : runesFrom p.length (p ++ s) = runes s := by
  induction p with
  | nil => rfl
  | cons b p ih => rw [List.length_cons, List.cons_append, runesFrom, ih]

theorem runes_char_append (c : Char) (s : List UInt8) :
    runes (String.utf8EncodeChar c ++ s) = some c :: runes s := by
  have front := decodeRune_append c s
  have size := String.length_utf8EncodeChar c
  have pos := c.utf8Size_pos
  cases bytes : String.utf8EncodeChar c with
  | nil =>
    rw [bytes, List.length_nil] at size
    omega
  | cons b p =>
    rw [bytes] at front size
    rw [List.length_cons] at size
    rw [List.cons_append] at front ⊢
    rw [runes, runesFrom, front]
    dsimp only
    rw [show c.utf8Size - 1 = p.length by omega, runesFrom_append]

theorem runes_of_decodeRune_eq_none {b : UInt8} {bs : List UInt8}
    (h : decodeRune (b :: bs) = none) : runes (b :: bs) = none :: runes bs := by
  rw [runes, runesFrom, h]
  rfl

/-- What stands for a character or a byte in the coerced string. -/
def runeBytes : Option Char → List UInt8
  | some c => String.utf8EncodeChar c
  | none => replacement

/-- The bytes it was read from. -/
def runeSize : Option Char → ℕ
  | some c => c.utf8Size
  | none => 1

theorem flatMap_runeBytes (s : List UInt8) : (runes s).flatMap runeBytes = coerce s := by
  induction s using char_induction with
  | nil => rfl
  | char c s ih => rw [runes_char_append, List.flatMap_cons, ih, coerce_char_append]; rfl
  | byte b bs front ih =>
    rw [runes_of_decodeRune_eq_none front, List.flatMap_cons, ih,
      coerce_of_decodeRune_eq_none front]
    rfl

theorem sum_runeSize (s : List UInt8) : ((runes s).map runeSize).sum = s.length := by
  induction s using char_induction with
  | nil => rfl
  | char c s ih =>
    rw [runes_char_append, List.map_cons, List.sum_cons, ih, List.length_append,
      String.length_utf8EncodeChar]
    rfl
  | byte b bs front ih =>
    rw [runes_of_decodeRune_eq_none front, List.map_cons, List.sum_cons, ih, List.length_cons,
      runeSize, Nat.add_comm]

end Utf8

/-! ## Strings -/

namespace Json

open Utf8

/-- A hexadecimal digit, in lower case. -/
def hexDigit (n : ℕ) : UInt8 := if n < 10 then UInt8.ofNat (48 + n) else UInt8.ofNat (87 + n)

/-- A backslash, `u` and four hexadecimal digits. -/
def unicodeEscape (n : ℕ) : List UInt8 :=
  [92, 117, hexDigit (n / 4096 % 16), hexDigit (n / 256 % 16), hexDigit (n / 16 % 16),
    hexDigit (n % 16)]

/-- The letter after the backslash in a short escape. -/
def shortEscape : ℕ → Option UInt8
  | 34 => some 34
  | 92 => some 92
  | 8 => some 98
  | 12 => some 102
  | 10 => some 110
  | 13 => some 114
  | 9 => some 116
  | _ => none

/-- A rune in a JSON string, with HTML escaped. -/
def escapeRune : Option Char → List UInt8
  | none => unicodeEscape 0xFFFD
  | some c =>
    match shortEscape c.toNat with
    | some letter => [92, letter]
    | none =>
      if c.toNat < 32 ∨ c.toNat = 38 ∨ c.toNat = 60 ∨ c.toNat = 62 ∨ c.toNat = 0x2028 ∨
          c.toNat = 0x2029 then unicodeEscape c.toNat
      else String.utf8EncodeChar c

/-- What stands between the quotes. -/
def escape (s : List UInt8) : List UInt8 := (runes s).flatMap escapeRune

/-- A JSON string. -/
def quote (s : List UInt8) : List UInt8 := 34 :: escape s ++ [34]

theorem utf8Size_le {c : Char} (h : c.toNat ≤ 65535) :
    c.utf8Size ≤ 3 ∧ (c.toNat ≤ 127 → c.utf8Size = 1) := by
  rw [Char.toNat] at h ⊢
  rw [← String.length_utf8EncodeChar]
  simp only [String.utf8EncodeChar]
  split_ifs <;> refine ⟨?_, fun _ => ?_⟩ <;>
    simp only [List.length_cons, List.length_nil] <;> omega

theorem le_of_shortEscape {n : ℕ} {letter : UInt8} (h : shortEscape n = some letter) : n ≤ 92 := by
  unfold shortEscape at h
  split at h <;> first | omega | cases h

/-- An escape is not shorter than what it stands for, and at most five bytes longer. -/
theorem length_escapeRune (r : Option Char) :
    runeSize r ≤ (escapeRune r).length ∧ (escapeRune r).length ≤ runeSize r + 5 := by
  cases r with
  | none => exact ⟨by decide, by decide⟩
  | some c =>
    have pos := c.utf8Size_pos
    simp only [escapeRune, runeSize]
    split
    · next short =>
      have ascii := le_of_shortEscape short
      have size := (utf8Size_le (show c.toNat ≤ 65535 by omega)).2 (by omega)
      simp only [List.length_cons, List.length_nil, size]
      omega
    · split_ifs with special
      · have size := (utf8Size_le (show c.toNat ≤ 65535 by omega)).1
        simp only [unicodeEscape, List.length_cons, List.length_nil]
        omega
      · rw [String.length_utf8EncodeChar]
        omega

theorem length_le_escape (s : List UInt8) : s.length ≤ (escape s).length := by
  rw [← sum_runeSize, escape, List.length_flatMap]
  exact List.sum_le_sum fun r _ => (length_escapeRune r).1

/-! ## Reading -/

/-- The value of a hexadecimal digit. -/
def hexValue (b : UInt8) : Option ℕ :=
  let n := b.toNat
  if 48 ≤ n ∧ n ≤ 57 then some (n - 48) else if 97 ≤ n ∧ n ≤ 102 then some (n - 87) else none

/-- The character of a short escape. -/
def shortValue (letter : UInt8) : Option UInt8 :=
  if letter = 34 then some 34
  else if letter = 92 then some 92
  else if letter = 98 then some 8
  else if letter = 102 then some 12
  else if letter = 110 then some 10
  else if letter = 114 then some 13
  else if letter = 116 then some 9
  else none

/-- The string that an escaped text stands for; no surrogates and no capital digits. -/
def unescape : List UInt8 → Option (List UInt8)
  | [] => some []
  | b :: bs =>
    if b = 92 then
      match bs with
      | 117 :: h₃ :: h₂ :: h₁ :: h₀ :: rest => do
        let n₃ ← hexValue h₃
        let n₂ ← hexValue h₂
        let n₁ ← hexValue h₁
        let n₀ ← hexValue h₀
        let s ← unescape rest
        return String.utf8EncodeChar (Char.ofNat (((n₃ * 16 + n₂) * 16 + n₁) * 16 + n₀)) ++ s
      | letter :: rest => do
        let c ← shortValue letter
        let s ← unescape rest
        return c :: s
      | [] => none
    else if b = 34 ∨ b < 32 then none
    else (unescape bs).map (b :: ·)

theorem hexValue_hexDigit {n : ℕ} (h : n < 16) : hexValue (hexDigit n) = some n := by
  interval_cases n <;> rfl

theorem unescape_unicodeEscape {n : ℕ} (h : n < 65536) (s : List UInt8) :
    unescape (unicodeEscape n ++ s) =
      (unescape s).map (String.utf8EncodeChar (Char.ofNat n) ++ ·) := by
  have digits : ((n / 4096 % 16 * 16 + n / 256 % 16) * 16 + n / 16 % 16) * 16 + n % 16 = n := by
    omega
  simp only [unicodeEscape, List.cons_append, List.nil_append]
  rw [unescape]
  simp only [if_true, hexValue_hexDigit (Nat.mod_lt _ (by decide : 0 < 16)), Option.bind_eq_bind,
    Option.bind_some, digits]
  cases unescape s <;> rfl

theorem unescape_short {n : ℕ} {letter : UInt8} (h : shortEscape n = some letter) (s : List UInt8) :
    unescape ([92, letter] ++ s) = (unescape s).map (UInt8.ofNat n :: ·) := by
  unfold shortEscape at h
  split at h <;> cases h <;> simp [unescape, shortValue] <;> cases unescape s <;> rfl

/-- Bytes that need no escape are copied. -/
theorem unescape_append {p : List UInt8} (plain : ∀ b ∈ p, b ≠ 92 ∧ b ≠ 34 ∧ ¬b < 32)
    (s : List UInt8) : unescape (p ++ s) = (unescape s).map (p ++ ·) := by
  induction p with
  | nil => simp
  | cons b p ih =>
    obtain ⟨backslash, quoteMark, control⟩ := plain b List.mem_cons_self
    have first : unescape (b :: (p ++ s)) = (unescape (p ++ s)).map (b :: ·) := by
      rw [unescape.eq_def]
      simp only [if_neg backslash, if_neg (not_or.2 ⟨quoteMark, control⟩)]
    rw [List.cons_append, first, ih fun b hb => plain b (List.mem_cons_of_mem _ hb),
      Option.map_map]
    rfl

theorem plain_ofNat {n : ℕ} (lt : n < 256) (ge : 32 ≤ n) (backslash : n ≠ 92) (quoteMark : n ≠ 34) :
    UInt8.ofNat n ≠ 92 ∧ UInt8.ofNat n ≠ 34 ∧ ¬UInt8.ofNat n < 32 := by
  have value : (UInt8.ofNat n).toNat = n := by
    rw [UInt8.toNat_ofNat']
    exact Nat.mod_eq_of_lt lt
  refine ⟨fun h => backslash ?_, fun h => quoteMark ?_, fun h => ?_⟩
  · rw [← value, h]
    rfl
  · rw [← value, h]
    rfl
  · rw [UInt8.lt_iff_toNat_lt, value] at h
    exact absurd h (not_lt.2 ge)

theorem plain_utf8EncodeChar {c : Char} (short : shortEscape c.toNat = none) (ge : 32 ≤ c.toNat) :
    ∀ b ∈ String.utf8EncodeChar c, b ≠ 92 ∧ b ≠ 34 ∧ ¬b < 32 := by
  have backslash : c.val.toNat ≠ 92 := fun h => by
    rw [Char.toNat, h] at short
    cases short
  have quoteMark : c.val.toNat ≠ 34 := fun h => by
    rw [Char.toNat, h] at short
    cases short
  rw [Char.toNat] at ge
  intro b member
  simp only [String.utf8EncodeChar] at member
  -- the bytes of a longer character are above the ASCII range
  split_ifs at member <;> simp only [List.mem_cons, List.not_mem_nil, or_false] at member
  · rw [member]
    exact plain_ofNat (by omega) ge backslash quoteMark
  · rcases member with rfl | rfl <;> apply plain_ofNat <;> omega
  · rcases member with rfl | rfl | rfl <;> apply plain_ofNat <;> omega
  · rcases member with rfl | rfl | rfl | rfl <;> apply plain_ofNat <;> omega

theorem unescape_escapeRune (r : Option Char) (s : List UInt8) :
    unescape (escapeRune r ++ s) = (unescape s).map (runeBytes r ++ ·) := by
  cases r with
  | none => exact unescape_unicodeEscape (by decide) s
  | some c =>
    simp only [escapeRune, runeBytes]
    split
    · next short =>
      have ascii := le_of_shortEscape short
      have one : String.utf8EncodeChar c = [UInt8.ofNat c.toNat] := by
        have ascii : c.val.toNat ≤ 127 := le_trans ascii (by decide)
        simp only [String.utf8EncodeChar, if_pos ascii, Char.toNat]
      rw [unescape_short short, one]
      rfl
    · next short =>
      split_ifs with special
      · rw [unescape_unicodeEscape (by omega), Char.ofNat_toNat]
      · exact unescape_append (plain_utf8EncodeChar short (by omega)) s

/-- A reader gets the coerced string. -/
theorem unescape_escape (s : List UInt8) : unescape (escape s) = some (coerce s) := by
  rw [escape, ← flatMap_runeBytes]
  induction runes s with
  | nil => rfl
  | cons r rs ih => rw [List.flatMap_cons, unescape_escapeRune, ih, List.flatMap_cons]; rfl

/-- Base64 needs no escapes. -/
theorem plain_encode (bs : List UInt8) : ∀ b ∈ Base64.encode bs, b ≠ 92 ∧ b ≠ 34 ∧ ¬b < 32 := by
  have digit (n : ℕ) : Base64.digit n ≠ 92 ∧ Base64.digit n ≠ 34 ∧ ¬Base64.digit n < 32 := by
    unfold Base64.digit
    split_ifs
    · apply plain_ofNat <;> omega
    · apply plain_ofNat <;> omega
    · apply plain_ofNat <;> omega
    · decide
    · decide
  have padding : Base64.padding ≠ 92 ∧ Base64.padding ≠ 34 ∧ ¬Base64.padding < 32 := by decide
  induction bs using Base64.encode.induct with
  | case1 => simp [Base64.encode]
  | case2 a =>
    simp only [Base64.encode, List.forall_mem_cons]
    exact ⟨digit _, digit _, padding, padding, by simp⟩
  | case3 a b =>
    simp only [Base64.encode, List.forall_mem_cons]
    exact ⟨digit _, digit _, digit _, padding, by simp⟩
  | case4 a b c rest ih =>
    simp only [Base64.encode, List.forall_mem_cons]
    exact ⟨digit _, digit _, digit _, digit _, ih⟩

theorem unescape_encode (bs : List UInt8) :
    unescape (Base64.encode bs) = some (Base64.encode bs) := by
  have copied := unescape_append (plain_encode bs) []
  rwa [List.append_nil, unescape, Option.map_some, List.append_nil] at copied

/-- The length of a list of texts with one separator between any two. -/
theorem length_intercalate (sep : UInt8) (l : List UInt8) (ls : List (List UInt8)) :
    (List.intercalate [sep] (l :: ls)).length + 1 =
      ((l :: ls).map fun l => l.length + 1).sum := by
  induction ls generalizing l with
  | nil => simp [List.intercalate]
  | cons l' ls ih =>
    rw [List.intercalate_cons_cons, List.map_cons, List.sum_cons, ← ih l']
    simp only [List.length_append, List.length_cons, List.length_nil]
    omega

end Json
