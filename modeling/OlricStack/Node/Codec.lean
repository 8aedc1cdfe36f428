import Mathlib.Data.List.Sort
import Mathlib.Tactic.Ring
import OlricStack.Node.Engine

/-!
# The bytes of an entry

`Entry.Encode` and `Entry.Decode` of `internal/olricstore`, and the three ways on which stored
entries travel as bytes: `PutRaw` of a `GetRaw`, the record that `LoadOnMiss` is answered with, and
`Import` of an `Export`.  `Encode` keeps one byte of the key's length, so entries come back as they
were exactly when their keys have at most 255 bytes (`entries_come_back_iff`, `long_key_is_lost`).
-/

namespace OlricStack.Node

/-! ## Words -/

/-- The conversion of a `uint64`. -/
def int64 (n : ℕ) : ℤ := (n : ℤ).bmod 18446744073709551616

/-- The values of the type `int64`. -/
def IsInt64 (n : ℤ) : Prop := -9223372036854775808 ≤ n ∧ n < 9223372036854775808

instance (n : ℤ) : Decidable (IsInt64 n) := inferInstanceAs (Decidable (_ ∧ _))

theorem int64_uint64 {n : ℤ} (range : IsInt64 n) : int64 (uint64 n) = n := by
  obtain ⟨le, lt⟩ := range
  unfold int64 uint64 Int.bmod
  dsimp only
  split_ifs <;> omega

theorem uint64_lt (n : ℤ) : uint64 n < 256 ^ 8 := by
  have lt : n % 18446744073709551616 < 18446744073709551616 := Int.emod_lt_of_pos _ (by decide)
  have nonneg : 0 ≤ n % 18446744073709551616 := Int.emod_nonneg _ (by decide)
  unfold uint64
  omega

/-- The number that bytes spell, most significant first. -/
def ofBigEndian (bs : Bytes) : ℕ := bs.foldl (fun n b => n * 256 + b.toNat) 0

theorem ofBigEndian_snoc (bs : Bytes) (b : UInt8) :
    ofBigEndian (bs ++ [b]) = ofBigEndian bs * 256 + b.toNat := by
  simp [ofBigEndian]

@[simp] theorem length_bigEndian (width n : ℕ) : (bigEndian width n).length = width := by
  simp [bigEndian]

theorem MemEntry.length_encode (e : MemEntry) :
    e.encode.length = 29 + e.key.length + e.value.length := by
  simp only [encode, List.length_cons, List.length_append, length_bigEndian]
  omega

/-- The last byte of a word is its least significant one. -/
theorem bigEndian_succ (width n : ℕ) :
    bigEndian (width + 1) n = bigEndian width (n / 256) ++ [UInt8.ofNat n] := by
  have shift : ∀ i, n >>> (8 * (i + 1)) = (n / 256) >>> (8 * i) := by
    intro i
    rw [Nat.mul_add, Nat.add_comm, Nat.shiftRight_add, Nat.shiftRight_eq_div_pow n]
  simp [bigEndian, List.range_succ_eq_map, List.map_reverse, Function.comp_def, shift]

theorem ofBigEndian_bigEndian (width : ℕ) :
    ∀ {n : ℕ}, n < 256 ^ width → ofBigEndian (bigEndian width n) = n := by
  induction width with
  | zero =>
    intro n lt
    obtain rfl : n = 0 := by simpa using lt
    rfl
  | succ width ih =>
    intro n lt
    rw [Nat.pow_succ] at lt
    rw [bigEndian_succ, ofBigEndian_snoc, ih (by omega), UInt8.toNat_ofNat']
    omega

/-! ## Reading a buffer -/

/-- `binary.BigEndian.Uint64(buf[offset:])` and `Uint32`; `none` is an index out of range. -/
def readUint (width : ℕ) (buf : Bytes) (offset : ℕ) : Option ℕ :=
  if offset + width ≤ buf.length then some (ofBigEndian ((buf.drop offset).take width)) else none

/-- `buf[start:stop]`, which may reach into the spare capacity behind the buffer; `none` is an index
out of range. -/
def slice (buf spare : Bytes) (start stop : ℕ) : Option Bytes :=
  if stop ≤ (buf ++ spare).length then some (((buf ++ spare).take stop).drop start) else none

theorem readUint_of_isPrefix {buf front : Bytes} {width n offset : ℕ}
    (cut : front ++ bigEndian width n <+: buf) (start : front.length = offset)
    (lt : n < 256 ^ width) : readUint width buf offset = some n := by
  obtain ⟨back, rfl⟩ := cut
  subst start
  have whole : front.length + width ≤ (front ++ bigEndian width n ++ back).length := by
    simp
  rw [readUint, if_pos whole, List.append_assoc, List.drop_left,
    List.take_left' (length_bigEndian width n), ofBigEndian_bigEndian width lt]

theorem slice_of_isPrefix {buf front middle : Bytes} {start stop : ℕ}
    (cut : front ++ middle <+: buf) (atStart : front.length = start)
    (atStop : (front ++ middle).length = stop) (spare : Bytes) :
    slice buf spare start stop = some middle := by
  obtain ⟨back, rfl⟩ := cut
  subst atStart atStop
  have whole : (front ++ middle).length ≤ (front ++ middle ++ back ++ spare).length := by
    simp
  rw [slice, if_pos whole, List.append_assoc, List.take_left, List.drop_left]

/-- A slice has the length it is asked for. -/
theorem length_of_slice {buf spare bs : Bytes} {start n : ℕ}
    (h : slice buf spare start (start + n) = some bs) : bs.length = n := by
  unfold slice at h
  split_ifs at h with whole
  obtain rfl := Option.some.inj h
  rw [List.length_drop, List.length_take, Nat.min_eq_left whole]
  omega

/-! ## Decoding -/

namespace MemEntry

/-- `Decode` of a buffer with the given spare capacity; `none` is a panic. -/
def decode (buf spare : Bytes) : Option MemEntry := do
  let keyLen ← buf[0]?
  let key ← slice buf spare 1 (1 + keyLen.toNat)
  let ttl ← readUint 8 buf (1 + keyLen.toNat)
  let timestamp ← readUint 8 buf (1 + keyLen.toNat + 8)
  let lastAccess ← readUint 8 buf (1 + keyLen.toNat + 8 + 8)
  let valueLen ← readUint 4 buf (1 + keyLen.toNat + 8 + 8 + 8)
  let value ← slice buf spare (1 + keyLen.toNat + 8 + 8 + 8 + 4)
    (1 + keyLen.toNat + 8 + 8 + 8 + 4 + valueLen)
  return ⟨key, value, int64 ttl, int64 timestamp, int64 lastAccess⟩

/-- What the types of the fields allow, with a value whose length fits into its word. -/
structure Typed (e : MemEntry) : Prop where
  ttl : IsInt64 e.ttl
  timestamp : IsInt64 e.timestamp
  lastAccess : IsInt64 e.lastAccess
  value : e.value.length < 4294967296

theorem decode_encode {e : MemEntry} (typed : e.Typed) (short : e.key.length ≤ 255)
    (spare : Bytes) : decode e.encode spare = some e := by
  have keyLen : (UInt8.ofNat e.key.length).toNat = e.key.length := by
    rw [UInt8.toNat_ofNat']
    omega
  -- the fields, each at the end of what is written up to it
  have toValueLen : _ ++ bigEndian 4 e.value.length <+: e.encode := List.prefix_append _ _
  have toLastAccess : _ ++ bigEndian 8 (uint64 e.lastAccess) <+: e.encode :=
    (List.prefix_append _ _).trans toValueLen
  have toTimestamp : _ ++ bigEndian 8 (uint64 e.timestamp) <+: e.encode :=
    (List.prefix_append _ _).trans toLastAccess
  have toTTL : _ ++ bigEndian 8 (uint64 e.ttl) <+: e.encode :=
    (List.prefix_append _ _).trans toTimestamp
  have toKey : [UInt8.ofNat e.key.length] ++ e.key <+: e.encode :=
    (List.prefix_append _ _).trans toTTL
  have first : e.encode[0]? = some (UInt8.ofNat e.key.length) := rfl
  have key : slice e.encode spare 1 (1 + e.key.length) = some e.key :=
    slice_of_isPrefix toKey rfl (by simp; omega) spare
  have ttl : readUint 8 e.encode (1 + e.key.length) = some (uint64 e.ttl) :=
    readUint_of_isPrefix toTTL (by simp; omega) (uint64_lt _)
  have timestamp : readUint 8 e.encode (1 + e.key.length + 8) = some (uint64 e.timestamp) :=
    readUint_of_isPrefix toTimestamp (by simp; omega) (uint64_lt _)
  have lastAccess : readUint 8 e.encode (1 + e.key.length + 8 + 8) = some (uint64 e.lastAccess) :=
    readUint_of_isPrefix toLastAccess (by simp; omega) (uint64_lt _)
  have valueLen : readUint 4 e.encode (1 + e.key.length + 8 + 8 + 8) = some e.value.length :=
    readUint_of_isPrefix toValueLen (by simp; omega) typed.value
  have value : slice e.encode spare (1 + e.key.length + 8 + 8 + 8 + 4)
      (1 + e.key.length + 8 + 8 + 8 + 4 + e.value.length) = some e.value :=
    slice_of_isPrefix (List.prefix_refl e.encode) (by simp; omega) (by simp; omega) spare
  simp only [decode, first, keyLen, key, ttl, timestamp, lastAccess, valueLen, value,
    Option.bind_eq_bind, Option.bind_some, int64_uint64 typed.ttl, int64_uint64 typed.timestamp,
    int64_uint64 typed.lastAccess]
  rfl

/-- The length of a decoded key was one byte. -/
theorem length_key_of_decode {e : MemEntry} {buf spare : Bytes}
    (decoded : decode buf spare = some e) : e.key.length ≤ 255 := by
  simp only [decode, Option.bind_eq_bind, Option.bind_eq_some_iff] at decoded
  obtain ⟨keyLen, -, key, hkey, _, -, _, -, _, -, _, -, _, -, same⟩ := decoded
  obtain rfl := Option.some.inj same
  have lt := keyLen.toNat_lt
  rw [length_of_slice hkey]
  omega

theorem decode_encode_iff {e : MemEntry} (typed : e.Typed) (spare : Bytes) :
    decode e.encode spare = some e ↔ e.key.length ≤ 255 :=
  ⟨length_key_of_decode, fun short => decode_encode typed short spare⟩

end MemEntry

/-! ## Raw entries -/

namespace Engine

/-- `GetRaw`; `none` is `ErrKeyNotFound`. -/
def getRaw (m : Engine) (hkey : ℕ) : Option Bytes := (m.get hkey).map MemEntry.encode

/-- `PutRaw` of a buffer with the given spare capacity; `none` is a panic of `Decode`. -/
def putRaw (m : Engine) (hkey : ℕ) (raw spare : Bytes) : Option Engine :=
  (MemEntry.decode raw spare).map (m.put hkey)

theorem get_put (m : Engine) (hkey k : ℕ) (entry : MemEntry) :
    (m.put hkey entry).get k = if k = hkey then some entry else m.get k := by
  split_ifs with same
  · rw [same, get_put_self]
  · unfold get put
    rw [m.lookup_insert_of_ne (a := ⟨hkey, entry⟩) same]

/-- Storing what was read changes nothing exactly if it is what was stored. -/
theorem putRaw_getRaw_iff {m : Engine} {hkey : ℕ} {e : MemEntry} (resident : m.get hkey = some e)
    (typed : e.Typed) (spare : Bytes) :
    (∃ m', m.putRaw hkey e.encode spare = some m' ∧ ∀ k, m'.get k = m.get k) ↔
      e.key.length ≤ 255 := by
  constructor
  · rintro ⟨m', put, same⟩
    obtain ⟨e', decoded, rfl⟩ := Option.map_eq_some_iff.1 put
    have stored := same hkey
    rw [get_put_self, resident] at stored
    obtain rfl := Option.some.inj stored
    exact MemEntry.length_key_of_decode decoded
  · intro short
    refine ⟨m.put hkey e, by rw [putRaw, MemEntry.decode_encode typed short]; rfl, fun k => ?_⟩
    rw [get_put]
    split_ifs with same
    · rw [same, resident]
    · rfl

end Engine

/-! ## Loaded entries -/

/-- What the control client reports for `LoadFromMySQL`. -/
inductive LoadAnswer
  | failed
  | notFound
  | found (record : EntryRecord)
deriving DecidableEq, Repr

/-- How loading a missing key ends. -/
inductive LoadError
  | keyNotFound
  | loadMiss
  | nilTemplate
  | panic
deriving DecidableEq, Repr

/-- `LoadOnMiss`; there may be no control client, and the template entry may be nil. -/
def loadOnMiss (control : Option LoadAnswer) (template : Option MemEntry) (spare : Bytes) :
    Except LoadError MemEntry :=
  match control with
  | none => .error .keyNotFound
  | some .failed => .error .loadMiss
  | some .notFound => .error .keyNotFound
  | some (.found record) =>
    if record.tombstone then .error .keyNotFound
    else if template.isNone then .error .nilTemplate
    else if record.encodedEntry.length = 0 then .error .keyNotFound
    else
      match MemEntry.decode record.encodedEntry spare with
      | some entry => .ok entry
      | none => .error .panic

/-- The record of a published SET. -/
theorem loadOnMiss_published {e : MemEntry} (typed : e.Typed) (spare writerID : Bytes)
    {op : DurableOperation} (entry : op.entry = some e.stored) (stamped : Sequencer) (now : ℤ)
    (template : MemEntry) :
    loadOnMiss (some (.found (recordFromEntry (logEntry writerID .set op stamped now))))
      (some template) spare = .ok e ↔ e.key.length ≤ 255 := by
  have encoded : (recordFromEntry (logEntry writerID .set op stamped now)).encodedEntry =
      e.encode := by
    simp only [recordFromEntry, logEntry, entry]
    rfl
  have live : (recordFromEntry (logEntry writerID .set op stamped now)).tombstone = false := rfl
  have nonempty : e.encode.length ≠ 0 := by simp [MemEntry.encode]
  rw [← MemEntry.decode_encode_iff typed spare]
  simp only [loadOnMiss, live, encoded, if_neg nonempty]
  cases MemEntry.decode e.encode spare <;> simp

/-! ## Transfers -/

/-- An entry on its way to another node. -/
structure TransferItem where
  hkey : ℕ
  raw : Bytes
deriving DecidableEq, Repr

/-- What is left to transfer. -/
structure TransferIterator where
  items : List TransferItem
  next : Bool
deriving DecidableEq, Repr

/-- The item that an entry is sent as. -/
def Slot.item (s : Slot) : TransferItem := ⟨s.hkey, s.entry.encode⟩

namespace Engine

/-- `TransferIterator`; the items are sorted by their hash. -/
def transferIterator (m : Engine) : TransferIterator :=
  ⟨(m.toList.map Slot.item).insertionSort (fun a b => a.hkey ≤ b.hkey), false⟩

/-- `Import`, from the items that `msgpack.Unmarshal` gives back, each with the spare capacity of
its buffer.  The callback `f` may fail; `none` is a panic of `Decode`. -/
def importItems {σ ε : Type*} (spare : TransferItem → Bytes)
    (f : σ → ℕ → MemEntry → Except ε σ) : List TransferItem → σ → Option (Except ε σ)
  | [], s => some (.ok s)
  | item :: items, s =>
    match MemEntry.decode item.raw (spare item) with
    | none => none
    | some entry =>
      match f s item.hkey entry with
      | .error err => some (.error err)
      | .ok s => importItems spare f items s

end Engine

namespace TransferIterator

/-- `Next`, with the iterator it leaves. -/
def advance (i : TransferIterator) : Bool × TransferIterator :=
  if i.next ∨ i.items.length = 0 then (false, i) else (true, { i with next := true })

/-- `Export`, up to the encoding; `none` is the error of an iterator that is not positioned. -/
def exported (i : TransferIterator) : Option (List TransferItem) :=
  if i.next then some i.items else none

end TransferIterator

namespace Engine

theorem items_eq (m : Engine) : m.transferIterator.items =
    (m.toList.insertionSort fun a b => a.hkey ≤ b.hkey).map Slot.item := by
  refine (List.map_insertionSort _ _ _ _ ?_).symm
  intro a _ b _
  rfl

/-- With short keys the callback gets the stored entries, in the order of their hashes. -/
theorem importItems_items {σ ε : Type*} (spare : TransferItem → Bytes)
    (f : σ → ℕ → MemEntry → Except ε σ) {slots : List Slot}
    (typed : ∀ slot ∈ slots, slot.entry.Typed) (short : ∀ slot ∈ slots, slot.entry.key.length ≤ 255)
    (s : σ) : importItems spare f (slots.map Slot.item) s =
      some (slots.foldlM (fun s slot => f s slot.hkey slot.entry) s) := by
  induction slots generalizing s with
  | nil => rfl
  | cons slot slots ih =>
    have decoded := MemEntry.decode_encode (typed slot List.mem_cons_self)
      (short slot List.mem_cons_self) (spare slot.item)
    simp only [List.map_cons, importItems, Slot.item, List.foldlM_cons]
    rw [← Slot.item, decoded]
    dsimp only
    cases f s slot.hkey slot.entry with
    | error err => rfl
    | ok s' =>
      exact ih (fun x hx => typed x (List.mem_cons_of_mem _ hx))
        (fun x hx => short x (List.mem_cons_of_mem _ hx)) s'

/-- `Import` into an engine. -/
abbrev importInto (m : Engine) (spare : TransferItem → Bytes) (items : List TransferItem) :
    Option (Except Empty Engine) :=
  importItems spare (fun m hkey entry => .ok (m.put hkey entry)) items m

/-- What is imported has a short key. -/
theorem short_of_importInto {spare : TransferItem → Bytes} {items : List TransferItem} :
    ∀ {m m' : Engine}, m.importInto spare items = some (.ok m') → ∀ slot ∈ m'.toList,
      slot ∈ m.toList ∨ slot.entry.key.length ≤ 255 := by
  induction items with
  | nil =>
    intro m m' h slot mem
    cases h
    exact .inl mem
  | cons item items ih =>
    intro m m' h slot mem
    simp only [importInto, importItems] at h
    split at h
    · cases h
    · next entry decoded =>
      rcases ih h slot mem with old | short
      · rcases List.mem_append.1 old with old | new
        · exact .inl (List.mem_of_mem_filter old)
        · rw [List.mem_singleton.1 new]
          exact .inr (MemEntry.length_key_of_decode decoded)
      · exact .inr short

theorem foldlM_put (slots : List Slot) (m : Engine) :
    slots.foldlM (fun m slot => (.ok (m.put slot.hkey slot.entry) : Except Empty Engine)) m =
      .ok (slots.foldl KeyedSet.insert m) := by
  induction slots generalizing m with
  | nil => rfl
  | cons slot slots ih => exact ih (m.insert slot)

/-- The entries of an engine, in whatever order they are put, make an engine with the same
entries. -/
theorem get_foldl_insert {m : Engine} {slots : List Slot} (perm : slots.Perm m.toList) (k : ℕ) :
    Engine.get (slots.foldl KeyedSet.insert .empty) k = m.get k := by
  have nodup : (slots.map Slot.hkey).Nodup := (perm.map _).nodup_iff.2 m.nodup
  unfold get
  congr 1
  ext slot
  rw [KeyedSet.lookup_eq_some_iff, KeyedSet.lookup_eq_some_iff, KeyedSet.mem_foldl_insert]
  simp only [KeyedSet.empty, List.nil_append]
  rw [KeyedSet.lastOf_toList ⟨slots, nodup⟩, perm.mem_iff]

theorem importInto_items_iff {m : Engine} (typed : ∀ slot ∈ m.toList, slot.entry.Typed)
    (spare : TransferItem → Bytes) :
    (∃ m', importInto .empty spare m.transferIterator.items = some (.ok m') ∧
      ∀ k, m'.get k = m.get k) ↔ ∀ slot ∈ m.toList, slot.entry.key.length ≤ 255 := by
  have perm := List.perm_insertionSort (fun a b : Slot => a.hkey ≤ b.hkey) m.toList
  constructor
  · rintro ⟨m', imported, same⟩ slot mem
    have found : m'.get slot.hkey = some slot.entry := by
      rw [same, get, m.lookup_of_mem mem]
      rfl
    obtain ⟨slot', found', entry⟩ := Option.map_eq_some_iff.1 found
    rw [← entry]
    have put := short_of_importInto imported slot' (m'.lookup_eq_some_iff.1 found').1
    exact put.resolve_left (List.not_mem_nil)
  · intro short
    refine ⟨_, ?_, get_foldl_insert perm⟩
    rw [importInto, items_eq, importItems_items spare _
      (fun slot mem => typed slot (perm.mem_iff.1 mem))
      (fun slot mem => short slot (perm.mem_iff.1 mem)), foldlM_put]

end Engine

/-! ## Round trips -/

/-- Entries come back from their bytes, through `Decode`, `PutRaw`, `LoadOnMiss` and `Import`,
exactly when their keys have at most 255 bytes. -/
theorem entries_come_back_iff {m : Engine} (typed : ∀ slot ∈ m.toList, slot.entry.Typed) {hkey : ℕ}
    {e : MemEntry} (resident : m.get hkey = some e) (spare : Bytes) :
    (∀ e' : MemEntry, e'.Typed →
      (MemEntry.decode e'.encode spare = some e' ↔ e'.key.length ≤ 255)) ∧
    (∃ raw, m.getRaw hkey = some raw ∧
      ((∃ m', m.putRaw hkey raw spare = some m' ∧ ∀ k, m'.get k = m.get k) ↔
        e.key.length ≤ 255)) ∧
    (∀ writerID op stamped now template, op.entry = some e.stored →
      (loadOnMiss (some (.found (recordFromEntry (logEntry writerID .set op stamped now))))
        (some template) spare = .ok e ↔ e.key.length ≤ 255)) ∧
    ∃ items, m.transferIterator.advance.2.exported = some items ∧
      ∀ spares, (∃ m', Engine.importInto .empty spares items = some (.ok m') ∧
        ∀ k, m'.get k = m.get k) ↔ ∀ slot ∈ m.toList, slot.entry.key.length ≤ 255 := by
  obtain ⟨slot, found, rfl⟩ := Option.map_eq_some_iff.1 resident
  have mem : slot ∈ m.toList := (m.lookup_eq_some_iff.1 found).1
  refine ⟨fun e' typed' => MemEntry.decode_encode_iff typed' spare, ?_, ?_, ?_⟩
  · refine ⟨slot.entry.encode, by rw [Engine.getRaw, resident]; rfl, ?_⟩
    exact Engine.putRaw_getRaw_iff resident (typed slot mem) spare
  · intro writerID op stamped now template entry
    exact loadOnMiss_published (typed slot mem) spare writerID entry stamped now template
  · refine ⟨m.transferIterator.items, ?_, Engine.importInto_items_iff typed⟩
    have nonempty : m.transferIterator.items.length ≠ 0 := by
      rw [Engine.items_eq, List.length_map, List.length_insertionSort]
      exact List.length_pos_of_mem mem |>.ne'
    rw [TransferIterator.advance, if_neg (by simpa [Engine.transferIterator] using nonempty)]
    rfl

/-- An entry with a key of two bytes, as the only one of its engine. -/
def shortKeyEngine : Engine := Engine.put .empty 7 ⟨[97, 98], [1], 5, -1, 0⟩

theorem entries_come_back_short :
    ∃ m', shortKeyEngine.putRaw 7 (MemEntry.encode ⟨[97, 98], [1], 5, -1, 0⟩) [] = some m' ∧
      ∀ k, m'.get k = shortKeyEngine.get k := by
  have typed : ∀ slot ∈ shortKeyEngine.toList, slot.entry.Typed := by
    intro slot mem
    rw [List.mem_singleton.1 mem]
    exact ⟨by decide, by decide, by decide, by decide⟩
  have resident : shortKeyEngine.get 7 = some ⟨[97, 98], [1], 5, -1, 0⟩ := rfl
  obtain ⟨-, ⟨raw, read, put⟩, -⟩ := entries_come_back_iff typed resident []
  cases read
  exact put.2 (by decide)

/-- A key of 256 bytes is written with the length 0: what follows is read from the key, and where
that spells a large length of the value, `Decode` panics. -/
theorem long_key_is_lost :
    MemEntry.decode (MemEntry.encode ⟨List.replicate 256 0, [1], 0, 1, 0⟩) [] =
      some ⟨[], [], 0, 0, 0⟩ ∧
    MemEntry.decode (MemEntry.encode ⟨List.replicate 256 97, [1], 0, 1, 0⟩) [] = none := by
  decide +kernel

end OlricStack.Node
