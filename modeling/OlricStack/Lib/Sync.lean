import Mathlib.Data.List.Basic
import Mathlib.Tactic.Common

/-!
# Reader-writer locks

A mutex that any number of threads hold for reading or one for writing.  The state of the mutex is
two counters; `HeldBy` says that they are right about the threads, and each operation keeps it when
the thread that calls it moves.  The last section says how the number of threads at some place
changes when one of them moves.
-/

namespace Sync

/-- `sync.RWMutex`. -/
structure RWMutex where
  readers : ℕ
  writer : Bool
deriving DecidableEq, Repr

namespace RWMutex

/-- Nobody has the lock. -/
def unlocked : RWMutex := ⟨0, false⟩

/-- Blocks while the mutex is held for writing. -/
def rLock (m : RWMutex) : Option RWMutex :=
  if m.writer then none else some { m with readers := m.readers + 1 }

/-- `RUnlock`. -/
def rUnlock (m : RWMutex) : RWMutex := { m with readers := m.readers - 1 }

/-- Blocks while the mutex is held at all. -/
def lock (m : RWMutex) : Option RWMutex :=
  if m.writer ∨ m.readers ≠ 0 then none else some { m with writer := true }

/-- `Unlock`. -/
def unlock (m : RWMutex) : RWMutex := { m with writer := false }

/-- Held by `r` threads for reading and by `w` for writing. -/
structure HeldBy (m : RWMutex) (r w : ℕ) : Prop where
  readers : m.readers = r
  writers : w = if m.writer then 1 else 0
  exclusive : m.writer = true → r = 0

variable {m m' : RWMutex} {r w : ℕ}

theorem heldBy_unlocked : unlocked.HeldBy 0 0 := ⟨rfl, rfl, fun _ => rfl⟩

theorem HeldBy.rLock (h : m.HeldBy r w) (locks : m.rLock = some m') : m'.HeldBy (r + 1) w := by
  unfold RWMutex.rLock at locks
  split_ifs at locks with writer
  cases locks
  exact ⟨congrArg (· + 1) h.readers, h.writers, fun held => absurd held writer⟩

theorem HeldBy.rUnlock (h : m.HeldBy (r + 1) w) : m.rUnlock.HeldBy r w := by
  refine ⟨?_, h.writers, fun held => absurd (h.exclusive held) (Nat.succ_ne_zero r)⟩
  rw [RWMutex.rUnlock, h.readers]
  rfl

theorem HeldBy.lock (h : m.HeldBy r w) (locks : m.lock = some m') :
    r = 0 ∧ m'.HeldBy r (w + 1) := by
  unfold RWMutex.lock at locks
  split_ifs at locks with held
  cases locks
  obtain ⟨writer, readers⟩ := not_or.1 held
  have alone : r = 0 := h.readers.symm.trans (not_not.1 readers)
  refine ⟨alone, h.readers, ?_, fun _ => alone⟩
  rw [h.writers, if_neg writer]
  rfl

theorem HeldBy.unlock (h : m.HeldBy r (w + 1)) : m.unlock.HeldBy r w := by
  have one := h.writers
  split_ifs at one
  refine ⟨h.readers, ?_, fun held => by cases held⟩
  simpa [RWMutex.unlock] using one

end RWMutex

/-! ## Counting threads -/

section Count

variable {γ : Type*} {l : List γ} {i : ℕ} {c : γ} (p : γ → Bool)

theorem countP_set_add (found : l[i]? = some c) (moved : γ) :
    (l.set i moved).countP p + (if p c then 1 else 0) =
      l.countP p + if p moved then 1 else 0 := by
  obtain ⟨lt, rfl⟩ := List.getElem?_eq_some_iff.1 found
  have split : l.countP p =
      (l.take i).countP p + ((l.drop (i + 1)).countP p + if p l[i] then 1 else 0) := by
    rw [← List.countP_cons, ← List.countP_append, List.getElem_cons_drop, List.take_append_drop]
  rw [List.set_eq_take_append_cons_drop, if_pos lt, List.countP_append, List.countP_cons, split]
  omega

/-- The thread is counted before its move iff it is after it. -/
theorem countP_set_same {moved : γ} (found : l[i]? = some c) (same : p moved = p c) :
    (l.set i moved).countP p = l.countP p := by
  have moves := countP_set_add p found moved
  rw [same] at moves
  omega

theorem countP_set_enter {moved : γ} (found : l[i]? = some c) (before : p c = false)
    (after : p moved = true) :
    (l.set i moved).countP p = l.countP p + 1 := by
  have moves := countP_set_add p found moved
  rw [before, after] at moves
  simpa using moves

theorem countP_set_leave {moved : γ} (found : l[i]? = some c) (before : p c = true)
    (after : p moved = false) :
    l.countP p = (l.set i moved).countP p + 1 := by
  have moves := countP_set_add p found moved
  rw [before, after] at moves
  simpa using moves.symm

theorem countP_snoc (added : γ) (out : p added = false) :
    (l ++ [added]).countP p = l.countP p := by
  rw [List.countP_append, List.countP_singleton, out]
  rfl

/-- Where at most one thread is, there are no two. -/
theorem eq_of_countP_le_one {l : List γ} (one : l.countP p ≤ 1) {i j : ℕ} {c d : γ}
    (at_i : l[i]? = some c) (at_j : l[j]? = some d) (hc : p c = true) (hd : p d = true) :
    i = j := by
  induction l generalizing i j with
  | nil => cases at_i
  | cons x l ih =>
    rw [List.countP_cons] at one
    have none : p x = true → ∀ (k : ℕ) e, l[k]? = some e → p e ≠ true := by
      intro hx k e at_k he
      have := List.countP_pos_iff.2 ⟨e, List.mem_of_getElem? at_k, he⟩
      rw [if_pos hx] at one
      omega
    cases i with
    | zero =>
      cases j with
      | zero => rfl
      | succ j =>
        cases at_i
        exact absurd hd (none hc j d at_j)
    | succ i =>
      cases j with
      | zero =>
        cases at_j
        exact absurd hc (none hd i c at_i)
      | succ j => exact congrArg (· + 1) (ih (by omega) at_i at_j)

end Count

end Sync
