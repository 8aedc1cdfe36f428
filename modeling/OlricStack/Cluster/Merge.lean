import Mathlib.Data.List.DropRight
import OlricStack.Node.Codec

/-!
# Merging a fragment

What a node does with the entries of a fragment that another one has sent to it:
`fragmentMergeFunction` and `mergeFragments` of the dmap fork, over `Import` of the engine.  Of two
versions of a key the one with the later timestamp stays, and on equal timestamps the one that was
sent.  `Merged` says what is left of both sides.
-/

namespace OlricStack.Cluster

open Node

/-- One round of the insertion sort by which `sort.Slice` sorts up to twelve elements: the element
moves left past those that it is not older than. -/
def insertVersion {α : Type*} (timestamp : α → ℤ) (sorted : List α) (v : α) : List α :=
  sorted.rdropWhile (fun w => timestamp v ≥ timestamp w) ++
    v :: sorted.rtakeWhile fun w => timestamp v ≥ timestamp w

/-- `sortVersions`. -/
def sortVersions {α : Type*} (timestamp : α → ℤ) (versions : List α) : List α :=
  versions.foldl (insertVersion timestamp) []

/-- The versions that `fragmentMergeFunction` compares; it tells them apart as pointers. -/
inductive Version
  | current (entry : MemEntry)
  | sent (entry : MemEntry)

/-- The timestamp by which versions are compared. -/
def Version.timestamp : Version → ℤ
  | .current entry | .sent entry => entry.timestamp

/-- `fragmentMergeFunction`; `Put` of the engine does not fail. -/
def fragmentMergeFunction (m : Engine) (hkey : ℕ) (entry : MemEntry) : Except Empty Engine :=
  match m.get hkey with
  | none => .ok (m.put hkey entry)
  | some current =>
    match sortVersions Version.timestamp [.current current, .sent entry] with
    | .sent winner :: _ => .ok (m.put hkey winner)
    | _ => .ok m

/-- `mergeFragments`, with the items of the payload; `none` is a panic of `Decode`. -/
def mergeFragments (spare : TransferItem → Bytes) (items : List TransferItem) (m : Engine) :
    Option (Except Empty Engine) :=
  Engine.importItems spare fragmentMergeFunction items m

/-- `transferIterator.Drop`. -/
def drop (items : List TransferItem) (m : Engine) : Engine :=
  items.foldl (fun m item => m.delete item.hkey) m

/-! ## Two versions -/

theorem sortVersions_pair {α : Type*} (timestamp : α → ℤ) (a b : α) :
    sortVersions timestamp [a, b] = if timestamp b ≥ timestamp a then [b, a] else [a, b] := by
  simp only [sortVersions, List.foldl_cons, List.foldl_nil, insertVersion, List.rdropWhile_nil,
    List.nil_append]
  split_ifs with later <;> simp [List.rdropWhile, List.rtakeWhile, later]

/-- Of the version `r` that is there and one that is sent, the one that stays. -/
def latest : Option MemEntry → MemEntry → MemEntry
  | none, entry => entry
  | some current, entry => if entry.timestamp ≥ current.timestamp then entry else current

theorem latest_eq_or (r : Option MemEntry) (entry : MemEntry) :
    latest r entry = entry ∨ r = some (latest r entry) := by
  cases r with
  | none => exact .inl rfl
  | some current =>
    simp only [latest]
    split_ifs
    · exact .inl rfl
    · exact .inr rfl

theorem le_latest (r : Option MemEntry) (entry : MemEntry) :
    entry.timestamp ≤ (latest r entry).timestamp := by
  cases r with
  | none => exact le_rfl
  | some current =>
    simp only [latest]
    split_ifs with later
    · exact le_rfl
    · exact (not_le.1 later).le

theorem le_latest_of_eq_some {r : Option MemEntry} {current : MemEntry} (h : r = some current)
    (entry : MemEntry) : current.timestamp ≤ (latest r entry).timestamp := by
  subst h
  simp only [latest]
  split_ifs with later
  · exact later
  · exact le_rfl

theorem fragmentMergeFunction_spec (m : Engine) (hkey : ℕ) (entry : MemEntry) :
    ∃ m', fragmentMergeFunction m hkey entry = .ok m' ∧
      ∀ k, m'.get k = if k = hkey then some (latest (m.get hkey) entry) else m.get k := by
  unfold fragmentMergeFunction
  cases resident : m.get hkey with
  | none => exact ⟨_, rfl, fun k => m.get_put hkey k entry⟩
  | some current =>
    have sorted := sortVersions_pair Version.timestamp (.current current) (.sent entry)
    by_cases later : entry.timestamp ≥ current.timestamp
    · replace sorted := sorted.trans (if_pos later)
      simp only [sorted, latest, if_pos later]
      exact ⟨_, rfl, fun k => m.get_put hkey k entry⟩
    · replace sorted := sorted.trans (if_neg later)
      simp only [sorted, latest, if_neg later]
      refine ⟨m, rfl, fun k => ?_⟩
      split_ifs with same
      · rw [same, resident]
      · rfl

/-! ## All of them -/

/-- What the merge of `slots` into `m` leaves. -/
structure Merged (slots : List Slot) (m m' : Engine) : Prop where
  source : ∀ k e, m'.get k = some e → m.get k = some e ∨ ⟨k, e⟩ ∈ slots
  keeps : ∀ k e, m.get k = some e → ∃ e', m'.get k = some e' ∧ e.timestamp ≤ e'.timestamp
  takes : ∀ slot ∈ slots, ∃ e', m'.get slot.hkey = some e' ∧
    slot.entry.timestamp ≤ e'.timestamp

/-- An entry that fits into its encoding. -/
structure Fits (e : MemEntry) : Prop where
  typed : e.Typed
  short : e.key.length ≤ 255

theorem Fits.eq_of_encode_eq {e e' : MemEntry} (fits : Fits e) (fits' : Fits e')
    (same : e.encode = e'.encode) : e = e' := by
  have decoded := MemEntry.decode_encode fits.typed fits.short []
  rw [same, MemEntry.decode_encode fits'.typed fits'.short []] at decoded
  exact (Option.some.inj decoded).symm

theorem foldlM_merge (slots : List Slot) (m : Engine) :
    ∃ m', slots.foldlM (fun m slot => fragmentMergeFunction m slot.hkey slot.entry) m = .ok m' ∧
      Merged slots m m' := by
  induction slots generalizing m with
  | nil =>
    refine ⟨m, rfl, fun _ _ h => .inl h, fun _ e h => ⟨e, h, le_rfl⟩, ?_⟩
    intro slot mem
    cases mem
  | cons slot slots ih =>
    obtain ⟨m₁, merges, first⟩ := fragmentMergeFunction_spec m slot.hkey slot.entry
    obtain ⟨m', rest, source, keeps, takes⟩ := ih m₁
    have here : m₁.get slot.hkey = some (latest (m.get slot.hkey) slot.entry) := by
      rw [first, if_pos rfl]
    refine ⟨m', by rw [List.foldlM_cons, merges]; exact rest, ?_, ?_, ?_⟩
    · intro k e found
      rcases source k e found with old | later
      · rw [first] at old
        split_ifs at old with same
        · obtain rfl := Option.some.inj old
          subst same
          rcases latest_eq_or (m.get slot.hkey) slot.entry with new | stays
          · rw [new]
            exact .inr List.mem_cons_self
          · exact .inl stays
        · exact .inl old
      · exact .inr (List.mem_cons_of_mem _ later)
    · intro k e found
      by_cases same : k = slot.hkey
      · subst same
        obtain ⟨e', found', le⟩ := keeps _ _ here
        exact ⟨e', found', (le_latest_of_eq_some found slot.entry).trans le⟩
      · exact keeps k e (by rw [first, if_neg same, found])
    · intro slot' mem
      rcases List.mem_cons.1 mem with rfl | later
      · obtain ⟨e', found, le⟩ := keeps _ _ here
        exact ⟨e', found, (le_latest _ _).trans le⟩
      · exact takes slot' later

theorem mergeFragments_spec {slots : List Slot} (fits : ∀ slot ∈ slots, Fits slot.entry)
    (spare : TransferItem → Bytes) (m : Engine) :
    ∃ m', mergeFragments spare (slots.map Slot.item) m = some (.ok m') ∧ Merged slots m m' := by
  obtain ⟨m', folded, merged⟩ := foldlM_merge slots m
  refine ⟨m', ?_, merged⟩
  rw [mergeFragments, Engine.importItems_items spare _ (fun slot mem => (fits slot mem).typed)
    (fun slot mem => (fits slot mem).short), folded]

theorem get_drop (items : List TransferItem) (m : Engine) (k : ℕ) :
    (drop items m).get k = if k ∈ items.map TransferItem.hkey then none else m.get k := by
  induction items generalizing m with
  | nil => rfl
  | cons item items ih =>
    rw [drop, List.foldl_cons, ← drop, ih, m.get_delete]
    by_cases here : k = item.hkey
    · simp [here]
    · simp [here]

end OlricStack.Cluster
