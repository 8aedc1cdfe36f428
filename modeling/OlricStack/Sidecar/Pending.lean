import OlricStack.Lib.KeyedSet
import OlricStack.Store.Record

/-!
# The pending set

The entries taken from the ring and not yet flushed (`pending` in `internal/sidecar/control.go`):
at most one per reference, with a running count of their approximate size.
-/

namespace OlricStack

/-- The approximate size of an entry, as counted against `MaxPendingBytes`. -/
def pendingEntryBytes (e : Entry) : UInt64 :=
  .ofNat (e.dmap.length + e.key.length + e.writerID.length + e.encodedEntry.length + 64)

/-- `pending`: the entries by reference, and the counter of their sizes. -/
structure Pending where
  entries : KeyedSet Entry.ref
  bytes : UInt64

/-- `newPending`. -/
def newPending : Pending := ⟨.empty, 0⟩

namespace Pending

/-- `get`. -/
def get (p : Pending) (ref : EntryRef) : Option Entry := p.entries.lookup ref

/-- `put`, which takes the place of the entry of its reference. -/
def put (p : Pending) (e : Entry) : Pending where
  entries := p.entries.insert e
  bytes :=
    (match p.get e.ref with
      | some existing => p.bytes - pendingEntryBytes existing
      | none => p.bytes) + pendingEntryBytes e

/-- The entries in the order of iteration, which the map does not fix. -/
def Snapshot (p : Pending) (out : List Entry) : Prop := out.Perm p.entries.toList

/-- Remove the entry of `ref` unless its owner sequence is above the one just flushed. -/
def drop (p : Pending) (ref : EntryRef) (ownerSeq : ℤ) : Pending :=
  match p.get ref with
  | some e =>
    if e.ownerSeq ≤ ownerSeq then ⟨p.entries.erase ref, p.bytes - pendingEntryBytes e⟩ else p
  | none => p

/-- Remove the entries below a generation; the first component is how many there were. -/
def purgeBelow (p : Pending) (generation : ℤ) : ℕ × Pending :=
  let dropped := p.entries.toList.filter fun e => e.generation < generation
  (dropped.length,
    ⟨p.entries.filter fun e => !decide (e.generation < generation),
      dropped.foldl (fun bytes e => bytes - pendingEntryBytes e) p.bytes⟩)

/-- Whether an entry belongs to a partition of a map. -/
def inPartition (dmap : Bytes) (partitionID partitionCount : ℕ) (e : Entry) : Bool :=
  e.dmap = dmap && e.hkey % partitionCount = partitionID

/-- The entries of one partition, in the order of iteration. -/
def DrainPartition (p : Pending) (dmap : Bytes) (partitionID partitionCount : ℕ)
    (out : List Entry) : Prop :=
  out.Perm (p.entries.toList.filter (inPartition dmap partitionID partitionCount))

/-- `size`: how many entries there are, and the counter. -/
def size (p : Pending) : ℕ × UInt64 := (p.entries.toList.length, p.bytes)

instance (p : Pending) (out : List Entry) : Decidable (p.Snapshot out) := by
  unfold Snapshot
  infer_instance

instance (p : Pending) (dmap : Bytes) (partitionID partitionCount : ℕ) (out : List Entry) :
    Decidable (p.DrainPartition dmap partitionID partitionCount out) := by
  unfold DrainPartition
  infer_instance

variable (p : Pending)

theorem ref_of_get {ref : EntryRef} {e : Entry} (h : p.get ref = some e) : e.ref = ref :=
  p.entries.key_of_lookup h

theorem mem_iff_get {e : Entry} : e ∈ p.entries.toList ↔ p.get e.ref = some e := by
  rw [get, KeyedSet.lookup_eq_some_iff]
  simp

@[simp] theorem get_newPending (ref : EntryRef) : newPending.get ref = none := rfl

@[simp] theorem get_put_self (e : Entry) : (p.put e).get e.ref = some e :=
  p.entries.lookup_insert_self e

theorem get_put_of_ne {e : Entry} {ref : EntryRef} (h : ref ≠ e.ref) :
    (p.put e).get ref = p.get ref :=
  p.entries.lookup_insert_of_ne h

theorem get_drop_of_ne {ref r : EntryRef} (h : r ≠ ref) (ownerSeq : ℤ) :
    (p.drop ref ownerSeq).get r = p.get r := by
  unfold drop
  split
  · split_ifs
    · exact p.entries.lookup_erase_of_ne h
    · rfl
  · rfl

/-- What `drop` leaves under its own reference. -/
theorem get_drop_self (ref : EntryRef) (ownerSeq : ℤ) :
    (p.drop ref ownerSeq).get ref = (p.get ref).filter fun e => ownerSeq < e.ownerSeq := by
  unfold drop
  split
  · next e h =>
    split_ifs with hle
    · rw [h, Option.filter_some, if_neg (by simpa using hle)]
      exact p.entries.lookup_erase_self ref
    · rw [h, Option.filter_some, if_pos (by simpa using hle)]
  · next h => rw [h, Option.filter_none]

/-- `drop` never adds or changes an entry. -/
theorem get_of_get_drop {ref r : EntryRef} {ownerSeq : ℤ} {e : Entry}
    (h : (p.drop ref ownerSeq).get r = some e) : p.get r = some e := by
  by_cases hr : r = ref
  · subst hr
    rw [get_drop_self] at h
    exact (Option.filter_eq_some_iff.1 h).1
  · rwa [p.get_drop_of_ne hr] at h

/-- The entries `drop` removes. -/
theorem not_mem_drop_iff {ref : EntryRef} {ownerSeq : ℤ} {e : Entry}
    (h : e ∈ p.entries.toList) :
    e ∉ (p.drop ref ownerSeq).entries.toList ↔ e.ref = ref ∧ e.ownerSeq ≤ ownerSeq := by
  rw [mem_iff_get] at h ⊢
  by_cases hr : e.ref = ref
  · rw [← hr, get_drop_self, h, Option.filter_some]
    simp
  · simp [p.get_drop_of_ne hr, h, hr]

theorem get_purgeBelow (generation : ℤ) (ref : EntryRef) :
    (p.purgeBelow generation).2.get ref =
      (p.get ref).filter fun e => !decide (e.generation < generation) :=
  p.entries.lookup_filter _ _

end Pending

end OlricStack
