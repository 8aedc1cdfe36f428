import Mathlib.Data.Prod.Lex
import Mathlib.Order.Lex
import Mathlib.Data.List.Lex
import Mathlib.Tactic.Common
import Mathlib.Order.Basic
import Mathlib.Data.Int.Order.Basic

/-!
# Entries, rows and fences

The wire entry that crosses the ring (`internal/oplog`), the row it becomes in the terminal store
(`internal/store`) and the fence both carry.  Byte strings are lists of bytes, compared bytewise as
the source language compares strings; counters and clock readings are integers.
-/

namespace OlricStack

/-- Bytes are ordered as numbers. -/
instance byteOrder : LinearOrder UInt8 where
  le_refl := UInt8.le_refl
  le_trans _ _ _ := UInt8.le_trans
  le_antisymm _ _ := UInt8.le_antisymm
  le_total := UInt8.le_total
  lt_iff_le_not_ge a b := by
    simp only [UInt8.le_iff_toNat_le, UInt8.lt_iff_toNat_lt]
    omega
  toDecidableLE := inferInstance
  toDecidableLT := inferInstance
  toDecidableEq := inferInstance
  min_def _ _ := rfl
  max_def _ _ := rfl

/-- A byte string. -/
abbrev Bytes := List UInt8

/-! ## Fences -/

/-- The version of a mutation: watchdog generation, topology epoch, owner sequence, writer. -/
structure Fence where
  generation : ℤ
  epoch : ℤ
  ownerSeq : ℤ
  writerID : Bytes
deriving DecidableEq, Repr

namespace Fence

/-- The four components as a lexicographic tuple. -/
def key (f : Fence) : ℤ ×ₗ ℤ ×ₗ ℤ ×ₗ Bytes :=
  toLex (f.generation, toLex (f.epoch, toLex (f.ownerSeq, f.writerID)))

theorem key_injective : Function.Injective key := by
  rintro ⟨⟩ ⟨⟩ h
  simpa [key] using h

/-- Fences are compared lexicographically. -/
instance : LinearOrder Fence := LinearOrder.lift' key key_injective

theorem lt_iff (a b : Fence) :
    a < b ↔ a.generation < b.generation ∨ a.generation = b.generation ∧
      (a.epoch < b.epoch ∨ a.epoch = b.epoch ∧
        (a.ownerSeq < b.ownerSeq ∨ a.ownerSeq = b.ownerSeq ∧ a.writerID < b.writerID)) := by
  change a.key < b.key ↔ _
  simp only [key, Prod.Lex.toLex_lt_toLex]

theorem le_iff (a b : Fence) :
    a ≤ b ↔ a.generation < b.generation ∨ a.generation = b.generation ∧
      (a.epoch < b.epoch ∨ a.epoch = b.epoch ∧
        (a.ownerSeq < b.ownerSeq ∨ a.ownerSeq = b.ownerSeq ∧ a.writerID ≤ b.writerID)) := by
  change a.key ≤ b.key ↔ _
  simp only [key, Prod.Lex.toLex_le_toLex]

/-- The window `(generation, epoch)` in which owner sequences are counted. -/
def window (f : Fence) : ℤ ×ₗ ℤ := toLex (f.generation, f.epoch)

theorem lt_of_window_lt {a b : Fence} (h : a.window < b.window) : a < b := by
  rw [window, window, Prod.Lex.toLex_lt_toLex] at h
  rw [lt_iff]
  rcases h with h | ⟨h, h'⟩
  · exact Or.inl h
  · exact Or.inr ⟨h, Or.inl h'⟩

theorem generation_le_of_le {a b : Fence} (h : a ≤ b) : a.generation ≤ b.generation := by
  rw [le_iff] at h
  rcases h with h | h
  · exact h.le
  · exact h.1.le

theorem lt_iff_of_window_eq {a b : Fence} (h : a.window = b.window) :
    a < b ↔ a.ownerSeq < b.ownerSeq ∨ a.ownerSeq = b.ownerSeq ∧ a.writerID < b.writerID := by
  obtain ⟨hg, he⟩ : a.generation = b.generation ∧ a.epoch = b.epoch := by
    simpa [window] using h
  rw [lt_iff]
  simp [hg, he]

end Fence

/-! ## Wire entries -/

/-- The kind of mutation an entry carries. -/
inductive Op
  | set
  | delete
  | expire
deriving DecidableEq, Repr

/-- The logical coordinates of a row (`store.EntryRef`). -/
structure EntryRef where
  dmap : Bytes
  key : Bytes
  hkey : ℕ
deriving DecidableEq, Repr

/-- The wire envelope of one mutation (`oplog.Entry`). -/
structure Entry where
  version : ℕ
  op : Op
  dmap : Bytes
  key : Bytes
  hkey : ℕ
  encodedEntry : Bytes
  ttl : ℤ
  timestamp : ℤ
  generation : ℤ
  epoch : ℤ
  ownerSeq : ℤ
  writerID : Bytes
  updatedAtUnixNano : ℤ
deriving DecidableEq, Repr

namespace Entry

/-- What an entry is about. -/
def ref (e : Entry) : EntryRef := ⟨e.dmap, e.key, e.hkey⟩

/-- The fence of an entry. -/
def fence (e : Entry) : Fence := ⟨e.generation, e.epoch, e.ownerSeq, e.writerID⟩

end Entry

/-- The wire version `Encode` stamps and `Decode` accepts. -/
def currentVersion : ℕ := 1

/-- `oplog.Encode`, with the payload given by the fields it spells out. -/
def encode (e : Entry) : Entry := { e with version := currentVersion }

/-- Why `oplog.Decode` rejects a payload that parses and has a known operation, with the values its
messages give. -/
inductive DecodeError
  | unsupportedVersion (version : ℕ)
  | emptyDMap
  | missingFence (generation ownerSeq : ℤ)
  | emptyWriterID
deriving DecidableEq, Repr

/-- The checks of `oplog.Decode`. -/
def decode (e : Entry) : Except DecodeError Entry :=
  if e.version ≠ currentVersion then .error (.unsupportedVersion e.version)
  else if e.dmap = [] then .error .emptyDMap
  else if e.generation ≤ 0 ∨ e.ownerSeq ≤ 0 then .error (.missingFence e.generation e.ownerSeq)
  else if e.writerID = [] then .error .emptyWriterID
  else .ok e

/-- What is accepted is what was sent. -/
theorem eq_of_decode {e e' : Entry} (h : decode e = .ok e') : e' = e := by
  unfold decode at h
  split_ifs at h
  exact (Except.ok.inj h).symm

/-! ## Rows -/

/-- The primary key `(dmap, hkey)` of the table. -/
abbrev RowKey := Bytes × ℕ

/-- The row of a reference. -/
def EntryRef.rowKey (r : EntryRef) : RowKey := (r.dmap, r.hkey)

/-- A row of the terminal store (`store.EntryRecord`); `updatedAt` is in Unix nanoseconds. -/
@[ext]
structure EntryRecord where
  dmap : Bytes
  key : Bytes
  hkey : ℕ
  encodedEntry : Bytes
  ttl : ℤ
  timestamp : ℤ
  tombstone : Bool
  generation : ℤ
  epoch : ℤ
  ownerSeq : ℤ
  writerID : Bytes
  updatedAt : ℤ
deriving DecidableEq, Repr

namespace EntryRecord

/-- The key under which the row is stored. -/
def rowKey (r : EntryRecord) : RowKey := (r.dmap, r.hkey)

/-- The fence of a row. -/
def fence (r : EntryRecord) : Fence := ⟨r.generation, r.epoch, r.ownerSeq, r.writerID⟩

end EntryRecord

/-- The row an entry becomes (`recordFromEntry`). -/
def recordFromEntry (e : Entry) : EntryRecord where
  dmap := e.dmap
  key := e.key
  hkey := e.hkey
  encodedEntry := e.encodedEntry
  ttl := e.ttl
  timestamp := e.timestamp
  tombstone := e.op = .delete
  generation := e.generation
  epoch := e.epoch
  ownerSeq := e.ownerSeq
  writerID := e.writerID
  updatedAt := e.updatedAtUnixNano

@[simp] theorem recordFromEntry_fence (e : Entry) : (recordFromEntry e).fence = e.fence := rfl

@[simp] theorem recordFromEntry_rowKey (e : Entry) :
    (recordFromEntry e).rowKey = e.ref.rowKey := rfl

/-- Whether the row's deadline has passed at `nowMs`, in Unix milliseconds; no deadline is stored
as a value that is not positive (`recordExpiredAt`). -/
def recordExpiredAt (r : EntryRecord) (nowMs : ℤ) : Bool :=
  if r.ttl ≤ 0 then false else decide (nowMs ≥ r.ttl)

end OlricStack
