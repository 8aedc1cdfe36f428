import Mathlib.Logic.Function.Basic
import Mathlib.Tactic.Common

/-!
# A server of versioned objects

Objects stand under keys with a version that every write changes.  A creation needs a free key, and
an update the version that stands there (optimistic concurrency).  `accept` is the server's own part
in a write: from the object that stands there and the one that is sent it makes the one that is
stored, or refuses.
-/

namespace ApiServer

/-- An object with its version. -/
structure Stored (α : Type*) where
  version : ℕ
  object : α
deriving DecidableEq

/-- The objects, and the version of the next write. -/
structure Server (κ α : Type*) where
  objects : κ → Option (Stored α)
  next : ℕ

namespace Server

variable {κ α : Type*} [DecidableEq κ] (accept : Option α → α → Option α)

/-- Store an object with a new version. -/
def put (s : Server κ α) (k : κ) (a : α) : Server κ α where
  objects := Function.update s.objects k (some ⟨s.next, a⟩)
  next := s.next + 1

/-- Delete an object. -/
def erase (s : Server κ α) (k : κ) : Server κ α :=
  { s with objects := Function.update s.objects k none }

/-- Create an object that is not there, if the server accepts it. -/
def create (s : Server κ α) (k : κ) (a : α) : Option (Server κ α) :=
  match s.objects k with
  | some _ => none
  | none => (accept none a).map (s.put k)

/-- Replace an object in the version that was read, if the server accepts it. -/
def update (s : Server κ α) (k : κ) (version : ℕ) (a : α) : Option (Server κ α) :=
  match s.objects k with
  | some old =>
    if old.version = version then (accept (some old.object) a).map (s.put k) else none
  | none => none

variable {accept} {s s' : Server κ α} {k k' : κ} {a : α} {version : ℕ}

@[simp] theorem put_objects_self : (s.put k a).objects k = some ⟨s.next, a⟩ :=
  Function.update_self ..

theorem put_objects_of_ne (other : k' ≠ k) : (s.put k a).objects k' = s.objects k' :=
  Function.update_of_ne other ..

@[simp] theorem erase_objects_self : (s.erase k).objects k = none := Function.update_self ..

theorem erase_objects_of_ne (other : k' ≠ k) : (s.erase k).objects k' = s.objects k' :=
  Function.update_of_ne other ..

theorem erase_objects_eq_some {old : Stored α} (h : (s.erase k).objects k' = some old) :
    s.objects k' = some old := by
  by_cases same : k' = k
  · subst same
    rw [erase_objects_self] at h
    cases h
  · rwa [erase_objects_of_ne same] at h

theorem create_eq_some (h : s.create accept k a = some s') :
    s.objects k = none ∧ ∃ stored, accept none a = some stored ∧ s' = s.put k stored := by
  unfold create at h
  split at h
  · cases h
  · rename_i free
    obtain ⟨stored, admitted, rfl⟩ := Option.map_eq_some_iff.1 h
    exact ⟨free, stored, admitted, rfl⟩

theorem update_eq_some (h : s.update accept k version a = some s') :
    ∃ old, s.objects k = some old ∧ old.version = version ∧
      ∃ stored, accept (some old.object) a = some stored ∧ s' = s.put k stored := by
  unfold update at h
  split at h
  · rename_i old there
    split_ifs at h with same
    obtain ⟨stored, admitted, rfl⟩ := Option.map_eq_some_iff.1 h
    exact ⟨old, there, same, stored, admitted, rfl⟩
  · cases h

/-- Every version that stands somewhere was given out. -/
def Numbered (s : Server κ α) : Prop := ∀ k old, s.objects k = some old → old.version < s.next

theorem Numbered.put (h : s.Numbered) (k : κ) (a : α) : (s.put k a).Numbered := by
  intro k' old there
  by_cases same : k' = k
  · subst same
    rw [put_objects_self] at there
    cases there
    exact Nat.lt_succ_self _
  · rw [put_objects_of_ne same] at there
    exact Nat.lt_succ_of_lt (h k' old there)

theorem Numbered.erase (h : s.Numbered) (k : κ) : (s.erase k).Numbered :=
  fun k' old there => h k' old (erase_objects_eq_some there)

/-- An object that was read: as long as its version stands there, so does the object. -/
structure Seen (s : Server κ α) (k : κ) (read : Stored α) : Prop where
  old : read.version < s.next
  same : ∀ there, s.objects k = some there → there.version = read.version → there = read

omit [DecidableEq κ] in
theorem Numbered.seen (h : s.Numbered) {read : Stored α} (there : s.objects k = some read) :
    s.Seen k read where
  old := h k read there
  same _ there' _ := Option.some.inj (there'.symm.trans there)

theorem Seen.put {read : Stored α} (h : s.Seen k read) (k' : κ) (a : α) :
    (s.put k' a).Seen k read where
  old := Nat.lt_succ_of_lt h.old
  same there found version := by
    by_cases same : k = k'
    · subst same
      rw [put_objects_self] at found
      cases found
      exact absurd version (Nat.ne_of_gt h.old)
    · rw [put_objects_of_ne same] at found
      exact h.same there found version

theorem Seen.erase {read : Stored α} (h : s.Seen k read) (k' : κ) : (s.erase k').Seen k read where
  old := h.old
  same there found := h.same there (erase_objects_eq_some found)

end Server

end ApiServer
