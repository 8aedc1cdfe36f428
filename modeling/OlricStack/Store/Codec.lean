import OlricStack.Lib.Text
import OlricStack.Store.Record

/-!
# The JSON of a log entry

`oplog.Encode` and `oplog.Decode` with what `encoding/json` does to each field: strings are coerced
to valid UTF-8, byte slices are written in base64, numbers are exact, and zero values of the fields
tagged `omitempty` are left out.  An entry always decodes, but it comes back as it was exactly when
its map name, key and writer are valid UTF-8 (`payload_roundtrip_iff`); other keys are stored under
a name the client has not used (`invalid_key_is_replaced`).
-/

namespace OlricStack

/-! ## Payloads -/

/-- The members of the JSON object, named by the tags of `oplog.Entry`. -/
inductive Field
  | v | op | dmap | key | hkey | entry | ttl | ts | g | e | s | w | u
deriving DecidableEq, Repr

/-- A JSON value, of the types that a record uses. -/
inductive Value
  | number (n : ℤ)
  | string (s : Bytes)
deriving DecidableEq, Repr

/-- A JSON object, its members in the order in which they are written. -/
abbrev Payload := List (Field × Value)

/-- The constants `OpSet`, `OpDelete` and `OpExpire`. -/
def Op.text : Op → Bytes
  | .set => [115, 101, 116]
  | .delete => [100, 101, 108, 101, 116, 101]
  | .expire => [101, 120, 112, 105, 114, 101]

/-- The operation of a text. -/
def parseOp (s : Bytes) : Option Op :=
  if s = Op.set.text then some .set
  else if s = Op.delete.text then some .delete
  else if s = Op.expire.text then some .expire
  else none

@[simp] theorem parseOp_text (op : Op) : parseOp op.text = some op := by
  cases op <;> rfl

/-- `json.Marshal` of an entry. -/
def marshal (e : Entry) : Payload :=
  [(Field.v, Value.number e.version), (.op, .string (Utf8.coerce e.op.text)),
    (.dmap, .string (Utf8.coerce e.dmap)), (.key, .string (Utf8.coerce e.key)),
    (.hkey, .number e.hkey)] ++
  (if e.encodedEntry = [] then []
    else [(Field.entry, Value.string (Base64.encode e.encodedEntry))]) ++
  (if e.ttl = 0 then [] else [(Field.ttl, Value.number e.ttl)]) ++
  (if e.timestamp = 0 then [] else [(Field.ts, Value.number e.timestamp)]) ++
  [(Field.g, Value.number e.generation), (.e, .number e.epoch), (.s, .number e.ownerSeq),
    (.w, .string (Utf8.coerce e.writerID)), (.u, .number e.updatedAtUnixNano)]

/-- The struct that `json.Unmarshal` fills, in which the operation is still a string. -/
structure Unmarshalled where
  version : ℕ
  op : Bytes
  dmap : Bytes
  key : Bytes
  hkey : ℕ
  encodedEntry : Bytes
  ttl : ℤ
  timestamp : ℤ
  generation : ℤ
  epoch : ℤ
  ownerSeq : ℤ
  writerID : Bytes
  updatedAtUnixNano : ℤ
deriving DecidableEq, Repr

namespace Unmarshalled

/-- What `json.Unmarshal` leaves of an empty object. -/
def zero : Unmarshalled := ⟨0, [], [], [], 0, [], 0, 0, 0, 0, 0, [], 0⟩

/-- A number for a field of type `int64`. -/
def int64 (n : ℤ) : Option ℤ :=
  if -9223372036854775808 ≤ n ∧ n < 9223372036854775808 then some n else none

/-- A number for an unsigned field below `bound`. -/
def unsigned (bound : ℕ) (n : ℤ) : Option ℕ := if 0 ≤ n ∧ n < bound then some n.toNat else none

/-- Store one member; `none` is an `UnmarshalTypeError` or malformed base64. -/
def set (r : Unmarshalled) : Field × Value → Option Unmarshalled
  | (.v, .number n) => (unsigned 4294967296 n).map fun n => { r with version := n }
  | (.op, .string s) => some { r with op := s }
  | (.dmap, .string s) => some { r with dmap := s }
  | (.key, .string s) => some { r with key := s }
  | (.hkey, .number n) => (unsigned 18446744073709551616 n).map fun n => { r with hkey := n }
  | (.entry, .string s) => (Base64.decode s).map fun bs => { r with encodedEntry := bs }
  | (.ttl, .number n) => (int64 n).map fun n => { r with ttl := n }
  | (.ts, .number n) => (int64 n).map fun n => { r with timestamp := n }
  | (.g, .number n) => (int64 n).map fun n => { r with generation := n }
  | (.e, .number n) => (int64 n).map fun n => { r with epoch := n }
  | (.s, .number n) => (int64 n).map fun n => { r with ownerSeq := n }
  | (.w, .string s) => some { r with writerID := s }
  | (.u, .number n) => (int64 n).map fun n => { r with updatedAtUnixNano := n }
  | _ => none

/-- The entry that is checked. -/
def entry (r : Unmarshalled) (op : Op) : Entry where
  version := r.version
  op := op
  dmap := r.dmap
  key := r.key
  hkey := r.hkey
  encodedEntry := r.encodedEntry
  ttl := r.ttl
  timestamp := r.timestamp
  generation := r.generation
  epoch := r.epoch
  ownerSeq := r.ownerSeq
  writerID := r.writerID
  updatedAtUnixNano := r.updatedAtUnixNano

end Unmarshalled

/-- `json.Unmarshal` into an entry. -/
def unmarshal (p : Payload) : Option Unmarshalled := p.foldlM Unmarshalled.set .zero

/-- `oplog.Encode`. -/
def encodePayload (e : Entry) : Payload := marshal (encode e)

/-- The errors of `Decode`. -/
inductive PayloadError
  | json
  | unknownOp (op : Bytes)
  | rejected (err : DecodeError)
deriving DecidableEq, Repr

/-- `oplog.Decode`. -/
def decodePayload (p : Payload) : Except PayloadError Entry :=
  match unmarshal p with
  | none => .error .json
  | some r =>
    if r.version ≠ currentVersion then .error (.rejected (.unsupportedVersion r.version))
    else
      match parseOp r.op with
      | none => .error (.unknownOp r.op)
      | some op => (decode (r.entry op)).mapError .rejected

/-! ## Round trips -/

namespace Entry

/-- What the types of the fields allow. -/
structure Typed (e : Entry) : Prop where
  version : e.version < 4294967296
  hkey : e.hkey < 18446744073709551616
  ttl : -9223372036854775808 ≤ e.ttl ∧ e.ttl < 9223372036854775808
  timestamp : -9223372036854775808 ≤ e.timestamp ∧ e.timestamp < 9223372036854775808
  generation : -9223372036854775808 ≤ e.generation ∧ e.generation < 9223372036854775808
  epoch : -9223372036854775808 ≤ e.epoch ∧ e.epoch < 9223372036854775808
  ownerSeq : -9223372036854775808 ≤ e.ownerSeq ∧ e.ownerSeq < 9223372036854775808
  updatedAt : -9223372036854775808 ≤ e.updatedAtUnixNano ∧
    e.updatedAtUnixNano < 9223372036854775808

/-- What `Decode` rejects in an entry that `Encode` has stamped. -/
structure Complete (e : Entry) : Prop where
  generation : 0 < e.generation
  ownerSeq : 0 < e.ownerSeq
  dmap : e.dmap ≠ []
  writerID : e.writerID ≠ []

/-- The entry with its strings as text. -/
def coerced (e : Entry) : Entry :=
  { e with
    version := currentVersion, dmap := Utf8.coerce e.dmap, key := Utf8.coerce e.key,
    writerID := Utf8.coerce e.writerID }

end Entry

theorem Unmarshalled.int64_eq {n : ℤ} (h : -9223372036854775808 ≤ n ∧ n < 9223372036854775808) :
    int64 n = some n := if_pos h

theorem coerce_text (op : Op) : Utf8.coerce op.text = op.text := by
  cases op <;> decide +kernel

theorem Unmarshalled.unsigned_eq {bound n : ℕ} (h : n < bound) :
    unsigned bound n = some n := by
  rw [unsigned, if_pos ⟨by omega, by exact_mod_cast h⟩, Int.toNat_natCast]

/-- The members that are always written, at the front and at the back. -/
theorem Unmarshalled.foldlM_front {e : Entry} (typed : e.Typed) :
    [(Field.v, Value.number e.version), (.op, .string (Utf8.coerce e.op.text)),
      (.dmap, .string (Utf8.coerce e.dmap)), (.key, .string (Utf8.coerce e.key)),
      (.hkey, .number e.hkey)].foldlM set zero =
      some ⟨e.version, e.op.text, Utf8.coerce e.dmap, Utf8.coerce e.key, e.hkey, [], 0, 0, 0, 0, 0,
        [], 0⟩ := by
  simp only [List.foldlM_cons, List.foldlM_nil, set, unsigned_eq typed.version,
    unsigned_eq typed.hkey, coerce_text]
  rfl

theorem Unmarshalled.foldlM_back {e : Entry} (typed : e.Typed) (r : Unmarshalled) :
    [(Field.g, Value.number e.generation), (.e, .number e.epoch), (.s, .number e.ownerSeq),
      (.w, .string (Utf8.coerce e.writerID)), (.u, .number e.updatedAtUnixNano)].foldlM set r =
      some { r with
        generation := e.generation, epoch := e.epoch, ownerSeq := e.ownerSeq,
        writerID := Utf8.coerce e.writerID, updatedAtUnixNano := e.updatedAtUnixNano } := by
  simp only [List.foldlM_cons, List.foldlM_nil, set, int64_eq typed.generation,
    int64_eq typed.epoch, int64_eq typed.ownerSeq, int64_eq typed.updatedAt]
  rfl

/-! The members with `omitempty` are left out when the field is zero anyway. -/

theorem Unmarshalled.foldlM_entry {r : Unmarshalled} (zero : r.encodedEntry = []) (bs : Bytes) :
    (if bs = [] then [] else [(Field.entry, Value.string (Base64.encode bs))]).foldlM set r =
      some { r with encodedEntry := bs } := by
  split_ifs with empty
  · rw [empty, ← zero]
    rfl
  · simp [set, Base64.decode_encode]

theorem Unmarshalled.foldlM_ttl {r : Unmarshalled} (zero : r.ttl = 0) {n : ℤ}
    (typed : -9223372036854775808 ≤ n ∧ n < 9223372036854775808) :
    (if n = 0 then [] else [(Field.ttl, Value.number n)]).foldlM set r =
      some { r with ttl := n } := by
  split_ifs with empty
  · rw [empty, ← zero]
    rfl
  · simp [set, int64_eq typed]

theorem Unmarshalled.foldlM_ts {r : Unmarshalled} (zero : r.timestamp = 0) {n : ℤ}
    (typed : -9223372036854775808 ≤ n ∧ n < 9223372036854775808) :
    (if n = 0 then [] else [(Field.ts, Value.number n)]).foldlM set r =
      some { r with timestamp := n } := by
  split_ifs with empty
  · rw [empty, ← zero]
    rfl
  · simp [set, int64_eq typed]

theorem unmarshal_marshal {e : Entry} (typed : e.Typed) :
    unmarshal (marshal e) = some ⟨e.version, e.op.text, Utf8.coerce e.dmap, Utf8.coerce e.key,
      e.hkey, e.encodedEntry, e.ttl, e.timestamp, e.generation, e.epoch, e.ownerSeq,
      Utf8.coerce e.writerID, e.updatedAtUnixNano⟩ := by
  simp only [unmarshal, marshal, List.foldlM_append, Option.bind_eq_bind]
  rw [Unmarshalled.foldlM_front typed, Option.bind_some, Unmarshalled.foldlM_entry rfl,
    Option.bind_some, Unmarshalled.foldlM_ttl rfl typed.ttl, Option.bind_some,
    Unmarshalled.foldlM_ts rfl typed.timestamp, Option.bind_some, Unmarshalled.foldlM_back typed]

theorem decode_of_complete {e : Entry} (version : e.version = currentVersion)
    (complete : e.Complete) : decode e = .ok e := by
  have generation := complete.generation
  have ownerSeq := complete.ownerSeq
  rw [decode, if_neg (not_not.2 version), if_neg complete.dmap, if_neg (by omega),
    if_neg complete.writerID]

theorem Entry.Typed.encode {e : Entry} (typed : e.Typed) : (encode e).Typed where
  version := by
    change currentVersion < 4294967296
    decide
  hkey := typed.hkey
  ttl := typed.ttl
  timestamp := typed.timestamp
  generation := typed.generation
  epoch := typed.epoch
  ownerSeq := typed.ownerSeq
  updatedAt := typed.updatedAt

theorem decodePayload_of_unmarshal {p : Payload} {r : Unmarshalled} {op : Op}
    (parsed : unmarshal p = some r) (version : r.version = currentVersion)
    (known : parseOp r.op = some op) :
    decodePayload p = (decode (r.entry op)).mapError .rejected := by
  simp only [decodePayload, parsed, version, known]
  rfl

/-- A complete entry decodes to itself with its strings coerced. -/
theorem decodePayload_encodePayload {e : Entry} (typed : e.Typed) (complete : e.Complete) :
    decodePayload (encodePayload e) = .ok e.coerced := by
  have coerced : e.coerced.Complete :=
    ⟨complete.generation, complete.ownerSeq, mt Utf8.coerce_eq_nil_iff.1 complete.dmap,
      mt Utf8.coerce_eq_nil_iff.1 complete.writerID⟩
  have accepted := decode_of_complete rfl coerced
  have decoded := decodePayload_of_unmarshal (unmarshal_marshal typed.encode) rfl
    (parseOp_text e.op)
  rw [encodePayload, decoded]
  exact congrArg (Except.mapError PayloadError.rejected) accepted

theorem coerced_eq_iff (e : Entry) : e.coerced = { e with version := currentVersion } ↔
    Utf8.Valid e.dmap ∧ Utf8.Valid e.key ∧ Utf8.Valid e.writerID := by
  simp only [Entry.coerced, Entry.mk.injEq, Utf8.coerce_eq_self_iff]
  tauto

/-- The entry decodes; it comes back as it was exactly if its strings are valid UTF-8, and the
pending set and the table hold it under the client's map name and key exactly if these two are. -/
theorem payload_roundtrip_iff {e : Entry} (typed : e.Typed) (complete : e.Complete) :
    ∃ d, decodePayload (encodePayload e) = .ok d ∧
      (d = { e with version := currentVersion } ↔
        Utf8.Valid e.dmap ∧ Utf8.Valid e.key ∧ Utf8.Valid e.writerID) ∧
      (d.ref = e.ref ↔ Utf8.Valid e.dmap ∧ Utf8.Valid e.key) ∧
      ((recordFromEntry d).dmap = e.dmap ∧ (recordFromEntry d).key = e.key ↔
        Utf8.Valid e.dmap ∧ Utf8.Valid e.key) := by
  refine ⟨_, decodePayload_encodePayload typed complete, coerced_eq_iff e, ?_, ?_⟩
  · simp [Entry.coerced, Entry.ref, Utf8.coerce_eq_self_iff]
  · simp [Entry.coerced, recordFromEntry, Utf8.coerce_eq_self_iff]

/-- An entry of the map `d` whose key is one byte. -/
def oneByteKey (b : UInt8) : Entry :=
  ⟨0, .set, [100], [b], 7, [1, 2], 5, 0, 1, 0, 1, [119], -3⟩

theorem oneByteKey_typed (b : UInt8) : (oneByteKey b).Typed := by
  constructor <;> simp [oneByteKey]

theorem oneByteKey_complete (b : UInt8) : (oneByteKey b).Complete := by
  constructor <;> simp [oneByteKey]

theorem payload_roundtrip_ascii :
    decodePayload (encodePayload (oneByteKey 107)) = .ok { oneByteKey 107 with version := 1 } := by
  obtain ⟨d, decoded, same, -⟩ :=
    payload_roundtrip_iff (oneByteKey_typed 107) (oneByteKey_complete 107)
  rw [decoded, same.2 ⟨⟨[Char.ofNat 100], by decide⟩, ⟨[Char.ofNat 107], by decide⟩,
    ⟨[Char.ofNat 119], by decide⟩⟩]
  rfl

/-- Two different keys arrive under the same third one. -/
theorem invalid_key_is_replaced :
    (oneByteKey 0xFF).ref ≠ (oneByteKey 0xFE).ref ∧
      decodePayload (encodePayload (oneByteKey 0xFF)) =
        .ok { oneByteKey 0xFF with version := 1, key := [0xEF, 0xBF, 0xBD] } ∧
      decodePayload (encodePayload (oneByteKey 0xFE)) =
        .ok { oneByteKey 0xFE with version := 1, key := [0xEF, 0xBF, 0xBD] } := by
  refine ⟨by decide, ?_, ?_⟩
  · rw [decodePayload_encodePayload (oneByteKey_typed _) (oneByteKey_complete _)]
    decide +kernel
  · rw [decodePayload_encodePayload (oneByteKey_typed _) (oneByteKey_complete _)]
    decide +kernel

end OlricStack
