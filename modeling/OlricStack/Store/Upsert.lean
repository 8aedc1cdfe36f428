import OlricStack.Store.Record
import Mathlib.Data.List.Sort
import Mathlib.Data.String.Basic

/-!
# The fenced upsert clause

`upsertClause` (`internal/sidecar/backend_mysql.go`) builds one `CASE WHEN newer THEN incoming ELSE
stored END` per updated column.  On the MySQL dialect the assignments are carried out one after the
other in ascending column-name order and a bare column reads what an earlier assignment of the same
statement has already written; on the other dialects all right-hand sides read the stored row.

`onConflict_standard` says that the second meaning replaces the whole row exactly when the incoming
fence is strictly greater.  `onConflict_mysql` computes what the first meaning leaves in the row:
`epoch` and `generation` are overwritten before the comparison that guards the remaining columns.
-/

namespace OlricStack

/-! ## Columns -/

/-- The columns `upsertClause` assigns. -/
inductive Column
  | key
  | encodedEntry
  | ttl
  | timestamp
  | tombstone
  | generation
  | epoch
  | ownerSeq
  | writerID
  | updatedAt
deriving DecidableEq, Repr

namespace Column

/-- The column name in the table. -/
def name : Column → String
  | key => "key"
  | encodedEntry => "encoded_entry"
  | ttl => "ttl"
  | timestamp => "timestamp"
  | tombstone => "tombstone"
  | generation => "generation"
  | epoch => "epoch"
  | ownerSeq => "owner_seq"
  | writerID => "writer_id"
  | updatedAt => "updated_at"

/-- The type of the cells of a column. -/
abbrev Cell : Column → Type
  | key | encodedEntry | writerID => Bytes
  | tombstone => Bool
  | ttl | timestamp | generation | epoch | ownerSeq | updatedAt => ℤ

instance : (c : Column) → LinearOrder c.Cell
  | key | encodedEntry | writerID => inferInstanceAs (LinearOrder Bytes)
  | tombstone => inferInstanceAs (LinearOrder Bool)
  | ttl | timestamp | generation | epoch | ownerSeq | updatedAt => Int.instLinearOrder

end Column

namespace EntryRecord

/-- The cell of a row in a column. -/
def get (r : EntryRecord) : (c : Column) → c.Cell
  | .key => r.key
  | .encodedEntry => r.encodedEntry
  | .ttl => r.ttl
  | .timestamp => r.timestamp
  | .tombstone => r.tombstone
  | .generation => r.generation
  | .epoch => r.epoch
  | .ownerSeq => r.ownerSeq
  | .writerID => r.writerID
  | .updatedAt => r.updatedAt

/-- Overwrite the cell of a row in a column. -/
def set (r : EntryRecord) : (c : Column) → c.Cell → EntryRecord
  | .key, v => { r with key := v }
  | .encodedEntry, v => { r with encodedEntry := v }
  | .ttl, v => { r with ttl := v }
  | .timestamp, v => { r with timestamp := v }
  | .tombstone, v => { r with tombstone := v }
  | .generation, v => { r with generation := v }
  | .epoch, v => { r with epoch := v }
  | .ownerSeq, v => { r with ownerSeq := v }
  | .writerID, v => { r with writerID := v }
  | .updatedAt, v => { r with updatedAt := v }

theorem set_get (r : EntryRecord) (c : Column) : r.set c (r.get c) = r := by
  cases c <;> rfl

/-- Rows of the same key that agree in every assigned column are equal. -/
theorem ext_get {r n : EntryRecord} (same : r.rowKey = n.rowKey) (h : ∀ c, r.get c = n.get c) :
    r = n := by
  obtain ⟨dmap, hkey⟩ := Prod.mk.inj same
  exact EntryRecord.ext dmap (h .key) hkey (h .encodedEntry) (h .ttl) (h .timestamp) (h .tombstone)
    (h .generation) (h .epoch) (h .ownerSeq) (h .writerID) (h .updatedAt)

end EntryRecord

/-! ## The clause -/

/-- Conditions of the clause.  `newGt c` is `VALUES(c) > c` on MySQL and `excluded.c > c`
elsewhere; `newEq c` is the same with `=`. -/
inductive Cond
  | newGt (c : Column)
  | newEq (c : Column)
  | and (p q : Cond)
  | or (p q : Cond)
deriving DecidableEq, Repr

/-- The value of a condition, with bare columns read from `cur`. -/
def Cond.eval (cur new : EntryRecord) : Cond → Bool
  | newGt c => decide (new.get c > cur.get c)
  | newEq c => decide (new.get c = cur.get c)
  | and p q => p.eval cur new && q.eval cur new
  | or p q => p.eval cur new || q.eval cur new

/-- `column = CASE WHEN cond THEN <incoming column> ELSE column END`. -/
structure Assignment where
  column : Column
  cond : Cond
deriving DecidableEq, Repr

/-- The right-hand side of an assignment, with bare columns read from `cur`. -/
def Assignment.value (a : Assignment) (cur new : EntryRecord) : a.column.Cell :=
  if a.cond.eval cur new then new.get a.column else cur.get a.column

/-- The text `newer` of `upsertClause`. -/
def newer : Cond :=
  .or (.or (.or (.newGt .generation)
    (.and (.newEq .generation) (.newGt .epoch)))
    (.and (.and (.newEq .generation) (.newEq .epoch)) (.newGt .ownerSeq)))
    (.and (.and (.and (.newEq .generation) (.newEq .epoch)) (.newEq .ownerSeq)) (.newGt .writerID))

/-- The map literal passed to `clause.Assignments`. -/
def doUpdates : List Assignment :=
  [⟨.key, newer⟩, ⟨.encodedEntry, newer⟩, ⟨.ttl, newer⟩, ⟨.timestamp, newer⟩, ⟨.tombstone, newer⟩,
    ⟨.generation, newer⟩, ⟨.epoch, newer⟩, ⟨.ownerSeq, newer⟩, ⟨.writerID, newer⟩,
    ⟨.updatedAt, newer⟩]

/-- `clause.Assignments` emits the assignments of a map in ascending order of column name. -/
def sortByName (l : List Assignment) : List Assignment :=
  l.insertionSort fun a b => a.column.name ≤ b.column.name

/-- The dialects `upsertClause` tells apart: `mysql`, and those that know `excluded`. -/
inductive Dialect
  | mysql
  | standard
deriving DecidableEq, Repr

/-- The assignments of the clause in statement order; the two branches differ only in how they
spell the incoming record. -/
def upsertClause : Dialect → List Assignment
  | .mysql => sortByName doUpdates
  | .standard => sortByName doUpdates

/-- One assignment of a statement whose assignments see each other. -/
def assignInPlace (new : EntryRecord) (cur : EntryRecord) (a : Assignment) : EntryRecord :=
  cur.set a.column (a.value cur new)

/-- One assignment of a statement whose right-hand sides all read the stored row `old`. -/
def assignFrom (old new : EntryRecord) (acc : EntryRecord) (a : Assignment) : EntryRecord :=
  acc.set a.column (a.value old new)

/-- The stored row after an upsert of `new` that hits it. -/
def onConflict (d : Dialect) (old new : EntryRecord) : EntryRecord :=
  match d with
  | .mysql => (upsertClause .mysql).foldl (assignInPlace new) old
  | .standard => (upsertClause .standard).foldl (assignFrom old new) old

theorem sortByName_doUpdates : sortByName doUpdates =
    [⟨.encodedEntry, newer⟩, ⟨.epoch, newer⟩, ⟨.generation, newer⟩, ⟨.key, newer⟩,
      ⟨.ownerSeq, newer⟩, ⟨.timestamp, newer⟩, ⟨.tombstone, newer⟩, ⟨.ttl, newer⟩,
      ⟨.updatedAt, newer⟩, ⟨.writerID, newer⟩] := by
  decide

/-- The text `newer` compares fences lexicographically. -/
theorem newer_eval (cur new : EntryRecord) :
    newer.eval cur new = decide (cur.fence < new.fence) := by
  rw [Bool.eq_iff_iff, decide_eq_true_iff, Fence.lt_iff]
  simp only [newer, Cond.eval, Bool.or_eq_true, Bool.and_eq_true, decide_eq_true_eq, gt_iff_lt]
  simp only [EntryRecord.get, EntryRecord.fence]
  constructor
  · rintro (((h | ⟨h, h'⟩) | ⟨⟨h, h'⟩, h''⟩) | ⟨⟨⟨h, h'⟩, h''⟩, h'''⟩)
    · exact Or.inl h
    · exact Or.inr ⟨h.symm, Or.inl h'⟩
    · exact Or.inr ⟨h.symm, Or.inr ⟨h'.symm, Or.inl h''⟩⟩
    · exact Or.inr ⟨h.symm, Or.inr ⟨h'.symm, Or.inr ⟨h''.symm, h'''⟩⟩⟩
  · rintro (h | ⟨h, h' | ⟨h', h'' | ⟨h'', h'''⟩⟩⟩)
    · exact Or.inl (Or.inl (Or.inl h))
    · exact Or.inl (Or.inl (Or.inr ⟨h.symm, h'⟩))
    · exact Or.inl (Or.inr ⟨⟨h.symm, h'.symm⟩, h''⟩)
    · exact Or.inr ⟨⟨⟨h.symm, h'.symm⟩, h''.symm⟩, h'''⟩

/-! ## The two meanings of the clause -/

/-- The incoming record under the key of the stored row. -/
def replaceRow (old new : EntryRecord) : EntryRecord :=
  { new with dmap := old.dmap, hkey := old.hkey }

theorem replaceRow_eq {old new : EntryRecord} (same : old.rowKey = new.rowKey) :
    replaceRow old new = new := by
  obtain ⟨hd, hk⟩ := Prod.mk.inj same
  simp only [replaceRow, hd, hk]

theorem get_replaceRow (old new : EntryRecord) (c : Column) :
    (replaceRow old new).get c = new.get c := by
  cases c <;> rfl

/-- With the stored row on every right-hand side, the clause replaces the row by a strictly newer
record and otherwise leaves it alone. -/
theorem onConflict_standard (r n : EntryRecord) :
    onConflict .standard r n = if r.fence < n.fence then replaceRow r n else r := by
  simp only [onConflict, upsertClause, sortByName_doUpdates, List.foldl_cons, List.foldl_nil,
    assignFrom, Assignment.value, newer_eval, decide_eq_true_eq]
  by_cases h : r.fence < n.fence
  · simp only [if_pos h, EntryRecord.set, EntryRecord.get, replaceRow]
  · simp only [if_neg h, EntryRecord.set_get]

/-- The sequential assignments of the columns `cs`. -/
def assignColumns (n : EntryRecord) (cs : List Column) (cur : EntryRecord) : EntryRecord :=
  (cs.map fun c => (⟨c, newer⟩ : Assignment)).foldl (assignInPlace n) cur

theorem assignInPlace_newer (n cur : EntryRecord) (c : Column) :
    assignInPlace n cur ⟨c, newer⟩ = if cur.fence < n.fence then cur.set c (n.get c) else cur := by
  simp only [assignInPlace, Assignment.value, newer_eval, decide_eq_true_eq]
  split_ifs
  · rfl
  · exact cur.set_get c

theorem assignColumns_of_lt {n cur : EntryRecord} (h : cur.fence < n.fence) (c : Column)
    (cs : List Column) :
    assignColumns n (c :: cs) cur = assignColumns n cs (cur.set c (n.get c)) := by
  simp only [assignColumns, List.map_cons, List.foldl_cons, assignInPlace_newer, if_pos h]

/-- Once the row is not older than the incoming record, the remaining assignments do nothing. -/
theorem assignColumns_of_not_lt {n cur : EntryRecord} (h : ¬ cur.fence < n.fence)
    (cs : List Column) :
    assignColumns n cs cur = cur := by
  induction cs with
  | nil => rfl
  | cons c cs ih =>
    simp only [assignColumns, List.map_cons, List.foldl_cons, assignInPlace_newer, if_neg h]
    exact ih

theorem onConflict_mysql_eq_assignColumns (r n : EntryRecord) :
    onConflict .mysql r n = assignColumns n [.encodedEntry, .epoch, .generation, .key, .ownerSeq,
      .timestamp, .tombstone, .ttl, .updatedAt, .writerID] r := by
  rw [onConflict, upsertClause, sortByName_doUpdates]
  rfl

/-- The row after `encoded_entry`, `epoch` and `generation` of a newer record. -/
def stagedRow (r n : EntryRecord) : EntryRecord :=
  { r with encodedEntry := n.encodedEntry, epoch := n.epoch, generation := n.generation }

theorem assignColumns_staged {r n : EntryRecord} (h : r.fence < n.fence) (cs : List Column) :
    assignColumns n (.encodedEntry :: .epoch :: .generation :: cs) r =
      assignColumns n cs (stagedRow r n) := by
  have h' : (r.set .encodedEntry (n.get .encodedEntry)).fence < n.fence := h
  rw [assignColumns_of_lt h, assignColumns_of_lt h']
  by_cases hg :
      ((r.set .encodedEntry (n.get .encodedEntry)).set .epoch (n.get .epoch)).fence < n.fence
  · rw [assignColumns_of_lt hg]
    rfl
  · -- the comparison has gone stale, which needs equal generations
    have heq : r.generation = n.generation := by
      rcases (Fence.lt_iff _ _).1 h with hlt | ⟨heq, -⟩
      · refine absurd ?_ hg
        exact (Fence.lt_iff _ _).2 (Or.inl hlt)
      · exact heq
    have hrow : (r.set .encodedEntry (n.get .encodedEntry)).set .epoch (n.get .epoch) =
        stagedRow r n := by
      simp only [stagedRow, ← heq]
      rfl
    rw [assignColumns_of_not_lt hg, hrow, assignColumns_of_not_lt (by rwa [hrow] at hg)]

/-- What the sequential assignments leave in the row.  The columns after `generation` are compared
with `epoch` and `generation` already replaced, those after `owner_seq` also with `owner_seq`
replaced. -/
theorem onConflict_mysql (r n : EntryRecord) :
    onConflict .mysql r n =
      if r.fence < n.fence then
        if r.ownerSeq ≤ n.ownerSeq ∧ r.writerID < n.writerID then replaceRow r n
        else if r.ownerSeq < n.ownerSeq then
          { stagedRow r n with key := n.key, ownerSeq := n.ownerSeq }
        else stagedRow r n
      else r := by
  rw [onConflict_mysql_eq_assignColumns]
  by_cases h : r.fence < n.fence
  swap
  · rw [if_neg h, assignColumns_of_not_lt h]
  rw [if_pos h, assignColumns_staged h]
  have staged : (stagedRow r n).fence < n.fence ↔
      r.ownerSeq < n.ownerSeq ∨ r.ownerSeq = n.ownerSeq ∧ r.writerID < n.writerID :=
    Fence.lt_iff_of_window_eq rfl
  by_cases third : r.ownerSeq ≤ n.ownerSeq ∧ r.writerID < n.writerID
  · -- the writer id alone keeps every later comparison true
    have hs : (stagedRow r n).fence < n.fence := by
      rw [staged]
      rcases third.1.lt_or_eq with hlt | heq
      · exact Or.inl hlt
      · exact Or.inr ⟨heq, third.2⟩
    have after {cur : EntryRecord} (hw : cur.fence.window = n.fence.window)
        (hq : cur.fence.ownerSeq = n.fence.ownerSeq) (hid : cur.fence.writerID = r.writerID) :
        cur.fence < n.fence := by
      refine (Fence.lt_iff_of_window_eq hw).2 (Or.inr ⟨hq, ?_⟩)
      rw [hid]
      exact third.2
    have hs' : ((stagedRow r n).set .key (n.get .key)).fence < n.fence := hs
    rw [if_pos third, assignColumns_of_lt hs, assignColumns_of_lt hs']
    refine (assignColumns_of_lt (after (by rfl) (by rfl) (by rfl)) _ _).trans ?_
    refine (assignColumns_of_lt (after (by rfl) (by rfl) (by rfl)) _ _).trans ?_
    refine (assignColumns_of_lt (after (by rfl) (by rfl) (by rfl)) _ _).trans ?_
    refine (assignColumns_of_lt (after (by rfl) (by rfl) (by rfl)) _ _).trans ?_
    exact assignColumns_of_lt (after (by rfl) (by rfl) (by rfl)) _ _
  rw [if_neg third]
  by_cases hq : r.ownerSeq < n.ownerSeq
  · -- `owner_seq` itself is the last column to be updated
    have hs : (stagedRow r n).fence < n.fence := staged.2 (Or.inl hq)
    have hs' : ((stagedRow r n).set .key (n.get .key)).fence < n.fence := hs
    have stuck : ¬ (((stagedRow r n).set .key (n.get .key)).set .ownerSeq
        (n.get .ownerSeq)).fence < n.fence := by
      refine fun hc => (?_ : ¬ _) ((Fence.lt_iff_of_window_eq (by rfl)).1 hc)
      rintro (hlt | ⟨-, hw⟩)
      · exact lt_irrefl _ hlt
      · exact third ⟨hq.le, hw⟩
    rw [if_pos hq, assignColumns_of_lt hs, assignColumns_of_lt hs', assignColumns_of_not_lt stuck]
    rfl
  · rw [if_neg hq]
    refine assignColumns_of_not_lt ?_ _
    rw [staged]
    rintro (hlt | ⟨heq, hw⟩)
    · exact hq hlt
    · exact third ⟨heq.le, hw⟩

theorem rowKey_onConflict (d : Dialect) (r n : EntryRecord) :
    (onConflict d r n).rowKey = r.rowKey := by
  cases d with
  | mysql =>
    rw [onConflict_mysql]
    split_ifs <;> rfl
  | standard =>
    rw [onConflict_standard]
    split_ifs <;> rfl

/-- On either dialect the stored fence ends up at least as great as the old one and the incoming
one, whatever the other columns hold. -/
theorem max_fence_le_onConflict (d : Dialect) (r n : EntryRecord) :
    max r.fence n.fence ≤ (onConflict d r n).fence := by
  by_cases h : r.fence < n.fence
  swap
  · have hstay : onConflict d r n = r := by
      cases d with
      | mysql => rw [onConflict_mysql, if_neg h]
      | standard => rw [onConflict_standard, if_neg h]
    rw [hstay]
    exact max_le le_rfl (not_lt.1 h)
  rw [max_eq_right h.le]
  cases d with
  | standard =>
    rw [onConflict_standard, if_pos h]
    exact le_rfl
  | mysql =>
    rw [onConflict_mysql, if_pos h]
    split_ifs with third hq
    · exact le_rfl
    · -- the writer id that stays is not smaller
      have hw : n.writerID ≤ r.writerID := not_lt.1 fun hw => third ⟨hq.le, hw⟩
      exact (Fence.le_iff _ _).2 (Or.inr ⟨rfl, Or.inr ⟨rfl, Or.inr ⟨rfl, hw⟩⟩⟩)
    · refine (Fence.le_iff _ _).2 (Or.inr ⟨rfl, Or.inr ⟨rfl, ?_⟩⟩)
      rcases (not_lt.1 hq).lt_or_eq with hlt | heq
      · exact Or.inl hlt
      · exact Or.inr ⟨heq, not_lt.1 fun hw => third ⟨heq.ge, hw⟩⟩

/-! ## All or nothing -/

/-- The upsert of `n` on `r` took over every assigned column or left the whole row alone, as the
strict fence order decides. -/
def AllOrNothing (row r n : EntryRecord) : Prop :=
  (r.fence < n.fence → ∀ c, row.get c = n.get c) ∧ (¬ r.fence < n.fence → row = r)

/-- The columns assigned after `owner_seq`, the writer id apart, already agree. -/
def SameTrailing (r n : EntryRecord) : Prop :=
  r.timestamp = n.timestamp ∧ r.tombstone = n.tombstone ∧ r.ttl = n.ttl ∧ r.updatedAt = n.updatedAt

instance (r n : EntryRecord) : Decidable (SameTrailing r n) :=
  inferInstanceAs (Decidable (_ ∧ _ ∧ _ ∧ _))

/-- The pairs on which the in-place evaluation cannot go wrong: the incoming record is not newer;
or its writer id is greater and its sequence not smaller; or the writers are the same, the sequence
is not smaller, and the columns whose comparison goes stale have nothing to change. -/
def InPlaceSafe (r n : EntryRecord) : Prop :=
  ¬ r.fence < n.fence ∨ r.ownerSeq ≤ n.ownerSeq ∧ (r.writerID < n.writerID ∨
    r.writerID = n.writerID ∧ (r.ownerSeq = n.ownerSeq → r.key = n.key) ∧ SameTrailing r n)

instance (r n : EntryRecord) : Decidable (InPlaceSafe r n) :=
  inferInstanceAs (Decidable (_ ∨ _ ∧ (_ ∨ _ ∧ (_ → _) ∧ _)))

theorem allOrNothing_standard (r n : EntryRecord) :
    AllOrNothing (onConflict .standard r n) r n := by
  rw [onConflict_standard]
  constructor
  · intro h c
    rw [if_pos h, get_replaceRow]
  · intro h
    rw [if_neg h]

/-- The specification is unambiguous: a row that meets it is the one the standard dialect gives. -/
theorem allOrNothing_iff_eq_standard (r n row : EntryRecord) (hkey : row.rowKey = r.rowKey) :
    AllOrNothing row r n ↔ row = onConflict .standard r n := by
  constructor
  · intro h
    by_cases hlt : r.fence < n.fence
    · refine EntryRecord.ext_get (hkey.trans (rowKey_onConflict _ _ _).symm) fun c => ?_
      rw [h.1 hlt c, (allOrNothing_standard r n).1 hlt c]
    · rw [h.2 hlt, (allOrNothing_standard r n).2 hlt]
  · rintro rfl
    exact allOrNothing_standard r n

/-- The two dialects agree on exactly the safe pairs. -/
theorem onConflict_mysql_eq_standard_iff (r n : EntryRecord) :
    onConflict .mysql r n = onConflict .standard r n ↔ InPlaceSafe r n := by
  rw [onConflict_mysql, onConflict_standard]
  unfold InPlaceSafe
  by_cases h : r.fence < n.fence
  swap
  · simp [h]
  simp only [h, if_true, not_true, false_or]
  by_cases third : r.ownerSeq ≤ n.ownerSeq ∧ r.writerID < n.writerID
  · simp [third]
  rw [if_neg third]
  by_cases hq : r.ownerSeq < n.ownerSeq
  · -- the writer id and the trailing columns keep their old values
    rw [if_pos hq]
    simp only [stagedRow, replaceRow, EntryRecord.mk.injEq, true_and]
    constructor
    · rintro ⟨h1, h2, h3, hw, h4⟩
      exact ⟨hq.le, Or.inr ⟨hw, fun heq => absurd heq hq.ne, h2, h3, h1, h4⟩⟩
    · rintro ⟨hle, hw | ⟨hw, -, h2, h3, h1, h4⟩⟩
      · exact absurd ⟨hle, hw⟩ third
      · exact ⟨h1, h2, h3, hw, h4⟩
  · -- every column after `generation` keeps its old value
    rw [if_neg hq]
    simp only [stagedRow, replaceRow, EntryRecord.mk.injEq, true_and]
    constructor
    · rintro ⟨hk, h1, h2, h3, hs, hw, h4⟩
      exact ⟨hs.le, Or.inr ⟨hw, fun _ => hk, h2, h3, h1, h4⟩⟩
    · rintro ⟨hle, hw | ⟨hw, hk, h2, h3, h1, h4⟩⟩
      · exact absurd ⟨hle, hw⟩ third
      · have hs := le_antisymm hle (not_lt.1 hq)
        exact ⟨hk hs, h1, h2, h3, hs, hw, h4⟩

/-- The MySQL branch of the clause is all-or-nothing, and agrees with the other branch, on exactly
the safe pairs. -/
theorem mysql_allOrNothing_iff (r n : EntryRecord) :
    AllOrNothing (onConflict .mysql r n) r n ∧ onConflict .mysql r n = onConflict .standard r n ↔
      InPlaceSafe r n := by
  rw [allOrNothing_iff_eq_standard r n _ (rowKey_onConflict _ _ _), and_self]
  exact onConflict_mysql_eq_standard_iff r n

/-- A key that was set once and then deleted by the same writer: the tombstone is not stored. -/
theorem mysql_keeps_deleted_key_alive :
    ∃ r n : EntryRecord, r.rowKey = n.rowKey ∧ r.fence < n.fence ∧ n.tombstone = true ∧
      (onConflict .mysql r n).tombstone = false ∧
      ¬ (AllOrNothing (onConflict .mysql r n) r n ∧
        onConflict .mysql r n = onConflict .standard r n) := by
  refine ⟨⟨[117], [107], 7, [1, 2, 3], 0, 10, false, 1, 1, 1, [97], 10⟩,
    ⟨[117], [107], 7, [], 0, 20, true, 1, 1, 2, [97], 20⟩, rfl, by decide, rfl, by decide, ?_⟩
  rw [allOrNothing_iff_eq_standard _ _ _ (rowKey_onConflict _ _ _), and_self,
    onConflict_mysql_eq_standard_iff]
  decide

end OlricStack
