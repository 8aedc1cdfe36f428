import OlricStack.Store.Upsert
import OlricStack.Lib.LastWins

/-!
# The terminal store

The table of rows under `(dmap, hkey)` and the operations of `MySQLBackend`
(`internal/sidecar/backend_mysql.go`): batched upsert, lookup and purge.  On a dialect that reads
the stored row throughout, the table is a table of last-wins registers ordered by fence
(`row_upsertAll_standard`), from which convergence follows (`upsertEntries_converges`).
-/

namespace OlricStack

/-- The table: at most one row under each key, and every row under its own key. -/
@[ext]
structure Table where
  row : RowKey → Option EntryRecord
  keyed : ∀ k r, row k = some r → r.rowKey = k

namespace Table

/-- The table without rows. -/
def empty : Table := ⟨fun _ => none, fun _ _ h => nomatch h⟩

/-- The row an upsert of `n` leaves under its key. -/
def upsertedRow (d : Dialect) (old : Option EntryRecord) (n : EntryRecord) : EntryRecord :=
  match old with
  | none => n
  | some r => onConflict d r n

/-- `INSERT ... ON CONFLICT` of one record. -/
def upsert (d : Dialect) (t : Table) (n : EntryRecord) : Table where
  row := Function.update t.row n.rowKey (some (upsertedRow d (t.row n.rowKey) n))
  keyed k r h := by
    by_cases hk : k = n.rowKey
    · subst hk
      rw [Function.update_self] at h
      cases h
      rcases hr : t.row n.rowKey with _ | old
      · rfl
      · exact (rowKey_onConflict d old n).trans (t.keyed _ _ hr)
    · rw [Function.update_of_ne hk] at h
      exact t.keyed k r h

theorem row_upsert_self (d : Dialect) (t : Table) (n : EntryRecord) :
    (t.upsert d n).row n.rowKey = some (upsertedRow d (t.row n.rowKey) n) :=
  Function.update_self ..

theorem row_upsert_of_ne (d : Dialect) (t : Table) {n : EntryRecord} {k : RowKey}
    (h : k ≠ n.rowKey) : (t.upsert d n).row k = t.row k :=
  Function.update_of_ne h ..

/-- Upsert several records, in order. -/
def upsertAll (d : Dialect) (t : Table) (l : List EntryRecord) : Table := l.foldl (upsert d) t

/-- The row of `r`'s key carries a fence at least as great as `f`. -/
def Dominates (t : Table) (k : RowKey) (f : Fence) : Prop := ∃ r, t.row k = some r ∧ f ≤ r.fence

instance (t : Table) (k : RowKey) (f : Fence) : Decidable (t.Dominates k f) :=
  decidable_of_iff (∃ r ∈ t.row k, f ≤ r.fence) Iff.rfl

theorem Dominates.mono {t : Table} {k : RowKey} {f g : Fence} (h : t.Dominates k f) (le : g ≤ f) :
    t.Dominates k g := by
  obtain ⟨r, hr, hf⟩ := h
  exact ⟨r, hr, le.trans hf⟩

theorem dominates_upsert (d : Dialect) (t : Table) (n : EntryRecord) :
    (t.upsert d n).Dominates n.rowKey n.fence := by
  refine ⟨_, t.row_upsert_self d n, ?_⟩
  rcases t.row n.rowKey with _ | r
  · exact le_rfl
  · exact le_trans (le_max_right _ _) (max_fence_le_onConflict d r n)

theorem Dominates.upsert {t : Table} {k : RowKey} {f : Fence} (h : t.Dominates k f) (d : Dialect)
    (n : EntryRecord) : (t.upsert d n).Dominates k f := by
  obtain ⟨r, hr, hf⟩ := h
  by_cases hk : k = n.rowKey
  · subst hk
    refine ⟨_, t.row_upsert_self d n, ?_⟩
    rw [hr]
    exact le_trans hf (le_trans (le_max_left _ _) (max_fence_le_onConflict d r n))
  · exact ⟨r, by rw [t.row_upsert_of_ne d hk, hr], hf⟩

theorem Dominates.upsertAll {t : Table} {k : RowKey} {f : Fence} (h : t.Dominates k f) (d : Dialect)
    (l : List EntryRecord) : (t.upsertAll d l).Dominates k f := by
  induction l generalizing t with
  | nil => exact h
  | cons n l ih => exact ih (h.upsert d n)

/-- After an upsert of several records, every one of them is dominated. -/
theorem dominates_upsertAll (d : Dialect) (t : Table) {l : List EntryRecord} {n : EntryRecord}
    (h : n ∈ l) : (t.upsertAll d l).Dominates n.rowKey n.fence := by
  induction l generalizing t with
  | nil => cases h
  | cons m l ih =>
    rcases List.mem_cons.1 h with rfl | h
    · exact (t.dominates_upsert d n).upsertAll d l
    · exact ih (t.upsert d m) h

/-- Delete the rows below a generation (`MySQLBackend.PurgeBelowGeneration`). -/
def purgeBelowGeneration (t : Table) (minGeneration : ℤ) : Table :=
  if minGeneration ≤ 0 then t
  else
    { row := fun k => (t.row k).filter fun r => !decide (r.generation < minGeneration)
      keyed := fun k r h => t.keyed k r (Option.filter_eq_some_iff.1 h).1 }

end Table

/-! ## The backend -/

/-- Cut a list into consecutive slices of `size` elements (the loop of `CreateInBatches`). -/
def slices {α : Type} (size : ℕ) : ℕ → List α → List (List α)
  | 0, _ => []
  | _ + 1, [] => []
  | fuel + 1, x :: l => (x :: l).take size :: slices size fuel ((x :: l).drop size)

theorem flatten_slices {α : Type} {size : ℕ} (pos : 0 < size) (fuel : ℕ) (l : List α)
    (enough : l.length ≤ fuel) : (slices size fuel l).flatten = l := by
  induction fuel generalizing l with
  | zero =>
    obtain rfl := List.length_eq_zero_iff.1 (Nat.le_zero.1 enough)
    rfl
  | succ fuel ih =>
    cases l with
    | nil => rfl
    | cons x l =>
      have shorter : ((x :: l).drop size).length ≤ fuel := by
        simp only [List.length_drop, List.length_cons] at enough ⊢
        omega
      rw [slices, List.flatten_cons, ih _ shorter, List.take_append_drop]

/-- `MySQLBackend`; the batch size is positive by construction. -/
structure MySQLBackend where
  dialect : Dialect
  batchSize : ℕ
  batchSize_pos : 0 < batchSize

/-- What a batch size that is not positive becomes. -/
def defaultBatchSize : ℕ := 256

theorem defaultBatchSize_pos : 0 < defaultBatchSize := by decide

/-- `NewMySQLBackend`. -/
def newMySQLBackend (d : Dialect) (batchSize : ℤ) : MySQLBackend :=
  if h : batchSize ≤ 0 then ⟨d, defaultBatchSize, defaultBatchSize_pos⟩
  else ⟨d, batchSize.toNat, by omega⟩

namespace MySQLBackend

/-- `MySQLBackend.UpsertEntries`, when it succeeds. -/
def upsertEntries (b : MySQLBackend) (t : Table) (records : List EntryRecord) : Table :=
  if records.length = 0 then t
  else (slices b.batchSize records.length records).foldl (Table.upsertAll b.dialect) t

/-- Batching does not matter: the records are upserted one by one in order. -/
theorem upsertEntries_eq (b : MySQLBackend) (t : Table) (records : List EntryRecord) :
    b.upsertEntries t records = t.upsertAll b.dialect records := by
  unfold upsertEntries
  split_ifs with h
  · obtain rfl := List.length_eq_zero_iff.1 h
    rfl
  · have flat := flatten_slices b.batchSize_pos records.length records le_rfl
    generalize slices b.batchSize records.length records = batches at flat
    subst flat
    rw [Table.upsertAll, List.foldl_flatten]
    rfl

/-- `MySQLBackend.LoadFromMySQL`; `none` is `ErrNotFound`. -/
def loadFromMySQL (_b : MySQLBackend) (t : Table) (ref : EntryRef) (nowMs : ℤ) :
    Option EntryRecord :=
  match t.row ref.rowKey with
  | none => none
  | some rec => if rec.tombstone then none else if recordExpiredAt rec nowMs then none else some rec

end MySQLBackend

/-! ## Convergence -/

namespace Table

/-- On the standard dialect the table is a table of last-wins registers. -/
theorem row_upsertAll_standard (t : Table) (l : List EntryRecord) :
    (t.upsertAll .standard l).row =
      LastWins.settleTable EntryRecord.fence EntryRecord.rowKey t.row l := by
  induction l generalizing t with
  | nil => rfl
  | cons n l ih =>
    have first : (t.upsert .standard n).row =
        LastWins.offerAt EntryRecord.fence EntryRecord.rowKey t.row n := by
      simp only [upsert, LastWins.offerAt]
      congr 1
      rcases hr : t.row n.rowKey with _ | r
      · rfl
      · simp only [upsertedRow, LastWins.offer, LastWins.newest, onConflict_standard,
          replaceRow_eq (t.keyed _ _ hr)]
    change ((t.upsert .standard n).upsertAll .standard l).row = _
    rw [ih, first]
    rfl

/-- Each row settles among the initial row and the records of its key. -/
theorem row_upsertAll_standard_apply (t : Table) (l : List EntryRecord) (k : RowKey) :
    (t.upsertAll .standard l).row k =
      LastWins.settle EntryRecord.fence (t.row k) (l.filter fun n => n.rowKey = k) := by
  rw [row_upsertAll_standard, LastWins.settleTable_apply]

/-- A row after upserts is the old one or one of the records. -/
theorem mem_row_upsertAll_standard {t : Table} {l : List EntryRecord} {k : RowKey} {r : EntryRecord}
    (h : r ∈ (t.upsertAll .standard l).row k) : r ∈ t.row k ∨ r ∈ l ∧ r.rowKey = k := by
  rw [Option.mem_def, row_upsertAll_standard_apply] at h
  rcases (LastWins.settle_spec EntryRecord.fence h).1 with old | new
  · exact Or.inl old
  · exact Or.inr (by simpa using new)

/-- Upserts bring a fence into a row only with a record that has it. -/
theorem dominates_upsertAll_standard_iff {t : Table} {l : List EntryRecord} {k : RowKey}
    {f : Fence} : (t.upsertAll .standard l).Dominates k f ↔
      t.Dominates k f ∨ ∃ r ∈ l, r.rowKey = k ∧ f ≤ r.fence := by
  constructor
  · rintro ⟨r, hr, le⟩
    rcases mem_row_upsertAll_standard hr with old | ⟨mem, row⟩
    · exact .inl ⟨r, old, le⟩
    · exact .inr ⟨r, mem, row, le⟩
  · rintro (h | ⟨r, mem, rfl, le⟩)
    · exact h.upsertAll _ _
    · exact (dominates_upsertAll _ _ mem).mono le

/-- Every record meets a row on which the dialect's in-place evaluation, if it has one, is safe. -/
def WholeUpserts (d : Dialect) : Table → List EntryRecord → Prop
  | _, [] => True
  | t, n :: l => (d = .mysql → ∀ r ∈ t.row n.rowKey, InPlaceSafe r n) ∧
      WholeUpserts d (t.upsert d n) l

instance WholeUpserts.decidable (d : Dialect) :
    (t : Table) → (l : List EntryRecord) → Decidable (WholeUpserts d t l)
  | _, [] => .isTrue trivial
  | t, n :: l =>
    have := WholeUpserts.decidable d (t.upsert d n) l
    inferInstanceAs (Decidable (_ ∧ _))

theorem upsert_eq_standard {d : Dialect} {t : Table} {n : EntryRecord}
    (safe : d = .mysql → ∀ r ∈ t.row n.rowKey, InPlaceSafe r n) :
    t.upsert d n = t.upsert .standard n := by
  cases d with
  | standard => rfl
  | mysql =>
    have same :
        upsertedRow .mysql (t.row n.rowKey) n = upsertedRow .standard (t.row n.rowKey) n := by
      rcases hr : t.row n.rowKey with _ | r
      · rfl
      · exact (onConflict_mysql_eq_standard_iff r n).2 (safe rfl r hr)
    ext1
    simp only [upsert, same]

theorem upsertAll_eq_standard {d : Dialect} {t : Table} {l : List EntryRecord}
    (whole : WholeUpserts d t l) : t.upsertAll d l = t.upsertAll .standard l := by
  induction l generalizing t with
  | nil => rfl
  | cons n l ih =>
    obtain ⟨safe, rest⟩ := whole
    change (t.upsert d n).upsertAll d l = (t.upsert .standard n).upsertAll .standard l
    rw [ih rest, upsert_eq_standard safe]

theorem upsertAll_append (d : Dialect) (t : Table) (l l' : List EntryRecord) :
    t.upsertAll d (l ++ l') = (t.upsertAll d l).upsertAll d l' := by
  simp only [upsertAll, List.foldl_append]

end Table

/-- The records of key `k` among the initial row and the records `l`. -/
def RecordsOf (t : Table) (l : List EntryRecord) (k : RowKey) (c : EntryRecord) : Prop :=
  LastWins.Candidate (t.row k) (l.filter fun n => n.rowKey = k) c

/-- A sequence of `UpsertEntries` calls. -/
def MySQLBackend.upsertBatches (b : MySQLBackend) (t : Table) (batches : List (List EntryRecord)) :
    Table :=
  batches.foldl b.upsertEntries t

theorem MySQLBackend.upsertBatches_eq (b : MySQLBackend) (t : Table)
    (batches : List (List EntryRecord)) :
    b.upsertBatches t batches = t.upsertAll b.dialect batches.flatten := by
  induction batches generalizing t with
  | nil => rfl
  | cons l batches ih =>
    rw [List.flatten_cons, Table.upsertAll_append, ← b.upsertEntries_eq t l]
    exact ih _

theorem newMySQLBackend_dialect (d : Dialect) (batchSize : ℤ) :
    (newMySQLBackend d batchSize).dialect = d := by
  unfold newMySQLBackend
  split_ifs <;> rfl

/-- The fenced upsert converges.  After any batches the row of each key is a record of greatest
fence among the initial row and the records of the key; when records of one key and equal fence are
identical, any batches of the same records, however ordered, grouped or repeated, give the same
table; and along the way no row is replaced by one of smaller fence. -/
theorem upsertEntries_converges (batchSize : ℤ) (t : Table) (batches : List (List EntryRecord)) :
    let final := (newMySQLBackend .standard batchSize).upsertBatches t batches
    (∀ k, (final.row k = none ↔ ∀ c, ¬ RecordsOf t batches.flatten k c) ∧
      ∀ m, final.row k = some m → RecordsOf t batches.flatten k m ∧
        ∀ c, RecordsOf t batches.flatten k c → c.fence ≤ m.fence) ∧
    ((∀ k c c', RecordsOf t batches.flatten k c → RecordsOf t batches.flatten k c' →
        c.fence = c'.fence → c = c') →
      ∀ (batchSize' : ℤ) (batches' : List (List EntryRecord)),
        (∀ n, n ∈ batches.flatten ↔ n ∈ batches'.flatten) →
        (newMySQLBackend .standard batchSize').upsertBatches t batches' = final) ∧
    ∀ k l₁ l₂, l₁ <+: l₂ → l₂ <+: batches.flatten →
      ∀ r₁, (t.upsertAll .standard l₁).row k = some r₁ →
        ∃ r₂, (t.upsertAll .standard l₂).row k = some r₂ ∧ r₁.fence ≤ r₂.fence := by
  have settles (size : ℤ) (bs : List (List EntryRecord)) (k : RowKey) :
      ((newMySQLBackend .standard size).upsertBatches t bs).row k =
        LastWins.settle EntryRecord.fence (t.row k) (bs.flatten.filter fun n => n.rowKey = k) := by
    rw [MySQLBackend.upsertBatches_eq, newMySQLBackend_dialect, Table.row_upsertAll_standard_apply]
  refine ⟨fun k => ⟨?_, fun m hm => ?_⟩, fun functional size bs same => ?_, ?_⟩
  · rw [settles, LastWins.settle_eq_none_iff]
    constructor
    · rintro ⟨hr, hl⟩ c (hc | hc)
      · rw [hr] at hc
        cases hc
      · rw [hl] at hc
        cases hc
    · intro h
      refine ⟨Option.eq_none_iff_forall_ne_some.2 fun c hc => h c (Or.inl hc), ?_⟩
      exact List.eq_nil_iff_forall_not_mem.2 fun c hc => h c (Or.inr hc)
  · rw [settles] at hm
    exact LastWins.settle_spec EntryRecord.fence hm
  · ext1
    funext k
    rw [settles, settles]
    refine (LastWins.settle_congr EntryRecord.fence (fun c => ?_)
      fun c c' => functional k c c').symm
    simp only [List.mem_filter, same c]
  · rintro k l₁ l₂ ⟨l', rfl⟩ - r₁ h₁
    have hs : ((t.upsertAll .standard (l₁ ++ l')).row k).isSome := by
      rw [Table.row_upsertAll_standard_apply, List.filter_append, LastWins.settle_append,
        ← Table.row_upsertAll_standard_apply, h₁]
      exact LastWins.settle_isSome _ rfl _
    obtain ⟨r₂, h₂⟩ := Option.isSome_iff_exists.1 hs
    refine ⟨r₂, h₂, ?_⟩
    rw [Table.row_upsertAll_standard_apply, List.filter_append, LastWins.settle_append,
      ← Table.row_upsertAll_standard_apply, h₁] at h₂
    exact LastWins.version_le_settle _ h₂

end OlricStack
