import OlricStack.Lib.Json
import OlricStack.Store.Codec

/-!
# The bytes of a log entry

`oplog.Encode` down to the bytes that go into the ring: the members of `marshal` written out as
`encoding/json` does.  Every member is read back as the value `marshal` gives it (`read_members`),
and the length of the whole is a sum over the fields (`length_encodeText`).
-/

namespace OlricStack

/-! ## Scalars -/

/-- The value of a field, by its Go type. -/
inductive Scalar
  | number (n : ℤ)
  | text (s : Bytes)
  | bytes (bs : Bytes)
deriving DecidableEq, Repr

namespace Scalar

/-- The JSON value. -/
def value : Scalar → Value
  | number n => .number n
  | text s => .string (Utf8.coerce s)
  | bytes bs => .string (Base64.encode bs)

/-- The text of a value. -/
def render : Scalar → Bytes
  | number n => Decimal.formatInt n
  | text s => Json.quote s
  | bytes bs => 34 :: Base64.encode bs ++ [34]

end Scalar

/-- Read a number, or a string in quotes. -/
def readScalar : Bytes → Option Value
  | [] => none
  | b :: bs =>
    if b = 34 then
      if bs.getLast? = some 34 then (Json.unescape bs.dropLast).map .string else none
    else (Decimal.parseInt (b :: bs)).map .number

theorem Scalar.read_render (v : Scalar) : readScalar v.render = some v.value := by
  cases v with
  | number n =>
    obtain ⟨b, bs, cons, ne⟩ := Decimal.formatInt_eq_cons n
    rw [render, cons, readScalar, if_neg ne, ← cons, Decimal.parseInt_formatInt]
    rfl
  | text s =>
    simp [render, Json.quote, readScalar, Json.unescape_escape, value]
  | bytes bs =>
    simp [render, readScalar, Json.unescape_encode, value]

/-! ## Objects -/

/-- The tags of `oplog.Entry`. -/
def Field.name : Field → Bytes
  | .v => [118]
  | .op => [111, 112]
  | .dmap => [100, 109, 97, 112]
  | .key => [107, 101, 121]
  | .hkey => [104, 107, 101, 121]
  | .entry => [101, 110, 116, 114, 121]
  | .ttl => [116, 116, 108]
  | .ts => [116, 115]
  | .g => [103]
  | .e => [101]
  | .s => [115]
  | .w => [119]
  | .u => [117]

/-- The fields of an entry in the order of the struct; zero values tagged `omitempty` are left
out. -/
def members (e : Entry) : List (Field × Scalar) :=
  [(Field.v, Scalar.number e.version), (.op, .text e.op.text), (.dmap, .text e.dmap),
    (.key, .text e.key), (.hkey, .number e.hkey)] ++
  (if e.encodedEntry = [] then [] else [(Field.entry, Scalar.bytes e.encodedEntry)]) ++
  (if e.ttl = 0 then [] else [(Field.ttl, Scalar.number e.ttl)]) ++
  (if e.timestamp = 0 then [] else [(Field.ts, Scalar.number e.timestamp)]) ++
  [(Field.g, Scalar.number e.generation), (.e, .number e.epoch), (.s, .number e.ownerSeq),
    (.w, .text e.writerID), (.u, .number e.updatedAtUnixNano)]

/-- The text of a member. -/
def renderMember (m : Field × Scalar) : Bytes := 34 :: m.1.name ++ 34 :: 58 :: m.2.render

/-- The text of an object. -/
def renderObject (ms : List (Field × Scalar)) : Bytes :=
  123 :: List.intercalate [44] (ms.map renderMember) ++ [125]

/-- `oplog.Encode`. -/
def encodeText (e : Entry) : Bytes := renderObject (members (encode e))

/-- The members are those of `marshal`. -/
theorem read_members (e : Entry) :
    (members e).map (fun m => (m.1, readScalar m.2.render)) =
      (marshal e).map fun m => (m.1, some m.2) := by
  simp only [Scalar.read_render, members, marshal, List.map_append]
  split_ifs <;> rfl

/-! ## Lengths -/

/-- What a member takes, with its separator. -/
def memberSize (m : Field × Scalar) : ℕ := m.1.name.length + 4 + m.2.render.length

theorem length_renderObject (m : Field × Scalar) (ms : List (Field × Scalar)) :
    (renderObject (m :: ms)).length = 1 + ((m :: ms).map memberSize).sum := by
  have joined := Json.length_intercalate 44 (renderMember m) (ms.map renderMember)
  rw [← List.map_cons, List.map_map] at joined
  have sizes : ((fun l : Bytes => l.length + 1) ∘ renderMember) = memberSize := by
    funext m
    simp only [Function.comp, renderMember, memberSize, List.length_append, List.length_cons]
    omega
  rw [sizes] at joined
  simp only [renderObject, List.length_append, List.length_cons, List.length_nil]
  omega

/-- A member with `omitempty`. -/
theorem sum_optional (zero : Prop) [Decidable zero] (m : Field × Scalar) :
    ((if zero then [] else [m]).map memberSize).sum = if zero then 0 else memberSize m := by
  split_ifs <;> simp

/-- What an entry takes apart from its map name, key and writer. -/
def frame (e : Entry) : ℕ :=
  69 + e.op.text.length + (Decimal.formatInt e.hkey).length +
    (if e.encodedEntry = [] then 0 else 11 + (e.encodedEntry.length + 2) / 3 * 4) +
    (if e.ttl = 0 then 0 else 7 + (Decimal.formatInt e.ttl).length) +
    (if e.timestamp = 0 then 0 else 6 + (Decimal.formatInt e.timestamp).length) +
    (Decimal.formatInt e.generation).length + (Decimal.formatInt e.epoch).length +
    (Decimal.formatInt e.ownerSeq).length + (Decimal.formatInt e.updatedAtUnixNano).length

theorem length_renderObject_members {e : Entry} (version : e.version = currentVersion) :
    (renderObject (members e)).length =
      frame e + (Json.escape e.dmap).length + (Json.escape e.key).length +
        (Json.escape e.writerID).length := by
  have cons : members e = (Field.v, Scalar.number e.version) :: (members e).tail := rfl
  have one : (Decimal.formatInt (currentVersion : ℤ)).length = 1 := by decide
  have plain (op : Op) : (Json.escape op.text).length = op.text.length := by
    cases op <;> decide +kernel
  rw [cons, length_renderObject, ← cons]
  simp only [members, List.map_append, List.sum_append, sum_optional, List.map_cons,
    List.map_nil, List.sum_cons, List.sum_nil, memberSize, Field.name, Scalar.render, Json.quote,
    List.length_append, List.length_cons, List.length_nil, version, one, plain, frame,
    Base64.length_encode]
  split_ifs <;> omega

theorem length_encodeText (e : Entry) : (encodeText e).length =
    frame e + (Json.escape e.dmap).length + (Json.escape e.key).length +
      (Json.escape e.writerID).length := by
  have length : (encodeText e).length = frame (encode e) + _ + _ + _ :=
    length_renderObject_members rfl
  exact length

/-- Names, digits and the rounding of base64 are bounded. -/
theorem frame_le {e : Entry} (typed : e.Typed) : frame e ≤ 241 + e.encodedEntry.length * 2 := by
  have word {n : ℤ} (h : -9223372036854775808 ≤ n ∧ n < 9223372036854775808) :
      (Decimal.formatInt n).length ≤ 20 := Decimal.length_formatInt_le h.1 (by omega)
  have name : e.op.text.length ≤ 6 := by cases e.op <;> decide
  have hkey : (Decimal.formatInt e.hkey).length ≤ 20 := by
    have lt := typed.hkey
    exact Decimal.length_formatInt_le (by omega) (by exact_mod_cast lt)
  have ttl := word typed.ttl
  have timestamp := word typed.timestamp
  have generation := word typed.generation
  have epoch := word typed.epoch
  have ownerSeq := word typed.ownerSeq
  have updatedAt := word typed.updatedAt
  have entry : (if e.encodedEntry = [] then 0 else 11 + (e.encodedEntry.length + 2) / 3 * 4) ≤
      13 + e.encodedEntry.length * 2 := by
    split_ifs with empty
    · omega
    · have pos := List.length_pos_iff.2 empty
      omega
  unfold frame
  split_ifs at entry ⊢ <;> omega

end OlricStack
