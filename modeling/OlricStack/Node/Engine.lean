import OlricStack.Lib.KeyedSet
import OlricStack.Node.Publish

/-!
# The in-memory engine

`internal/olricstore`: the entries of one fragment, by the hash of their key.
-/

namespace OlricStack.Node

/-- `olricstore.Entry`. -/
structure MemEntry where
  key : Bytes
  value : Bytes
  ttl : ℤ
  timestamp : ℤ
  lastAccess : ℤ
deriving DecidableEq, Repr

/-- The conversion of an `int64`. -/
def uint64 (n : ℤ) : ℕ := (n % 18446744073709551616).toNat

/-- `binary.BigEndian.PutUint64` and `PutUint32`; the bytes above the width are cut off. -/
def bigEndian (width n : ℕ) : Bytes :=
  (List.range width).reverse.map fun i => UInt8.ofNat (n >>> (8 * i))

namespace MemEntry

/-- `Entry.Encode`. -/
def encode (e : MemEntry) : Bytes :=
  UInt8.ofNat e.key.length :: e.key ++ bigEndian 8 (uint64 e.ttl) ++
    bigEndian 8 (uint64 e.timestamp) ++ bigEndian 8 (uint64 e.lastAccess) ++
    bigEndian 4 e.value.length ++ e.value

/-- What the durable hook reads of an entry. -/
def stored (e : MemEntry) : StoredEntry := ⟨e.encode, e.ttl, e.timestamp⟩

/-- The entry with the times of another one, as `UpdateTTL` leaves it. -/
def touch (e times : MemEntry) : MemEntry :=
  { e with ttl := times.ttl, timestamp := times.timestamp, lastAccess := times.lastAccess }

end MemEntry

/-- An entry under the hash of its key. -/
structure Slot where
  hkey : ℕ
  entry : MemEntry
deriving DecidableEq, Repr

/-- `Engine`; entries are cloned on their way in and out, so that nothing is shared. -/
abbrev Engine := KeyedSet Slot.hkey

namespace Engine

/-- `Get`. -/
def get (m : Engine) (hkey : ℕ) : Option MemEntry := (m.lookup hkey).map Slot.entry

/-- `GetLastAccess`, which is zero for an absent key. -/
def getLastAccess (m : Engine) (hkey : ℕ) : ℤ := ((m.get hkey).map MemEntry.lastAccess).getD 0

/-- `Check`. -/
def check (m : Engine) (hkey : ℕ) : Bool := (m.lookup hkey).isSome

/-- `Put`. -/
def put (m : Engine) (hkey : ℕ) (entry : MemEntry) : Engine := m.insert ⟨hkey, entry⟩

/-- `Delete`. -/
def delete (m : Engine) (hkey : ℕ) : Engine := m.erase hkey

/-- `UpdateTTL`; `none` is `ErrKeyNotFound`. -/
def updateTTL (m : Engine) (hkey : ℕ) (entry : MemEntry) : Option Engine :=
  (m.get hkey).map fun current => m.put hkey (current.touch entry)

/-- `Stats().Length`. -/
def length (m : Engine) : ℕ := m.toList.length

/-- `Stats().Inuse`. -/
def inuse (m : Engine) : ℕ :=
  m.toList.foldl (fun n s => n + (s.entry.key.length + s.entry.value.length + 32)) 0

@[simp] theorem get_put_self (m : Engine) (hkey : ℕ) (entry : MemEntry) :
    (m.put hkey entry).get hkey = some entry := by
  rw [get, put, m.lookup_insert_self ⟨hkey, entry⟩]
  rfl

theorem get_delete (m : Engine) (hkey k : ℕ) :
    (m.delete hkey).get k = if k = hkey then none else m.get k := by
  unfold get delete
  split_ifs with same
  · rw [same, m.lookup_erase_self]
    rfl
  · rw [m.lookup_erase_of_ne same]

theorem get_eq_none_iff (m : Engine) (hkey : ℕ) : m.get hkey = none ↔ m.check hkey = false := by
  rw [get, check, Option.map_eq_none_iff, Option.isSome_eq_false_iff, Option.isNone_iff_eq_none]

end Engine

end OlricStack.Node
