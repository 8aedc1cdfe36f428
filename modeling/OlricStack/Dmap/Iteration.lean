import Mathlib.Data.Finset.Card
import Mathlib.Data.Finset.Dedup
import OlricStack.Dmap.Iterator

/-!
# Iterating with one owner

A partition with one owner and one replica owner at most.  Taking the only owner out of a list does
not move anything, so a round brings each owner that is not scanned nearer to its end (`Progress`),
and a key that stays is read or ahead of the cursor (`Inv`).  The iteration ends, no key comes
twice, and a key that stays comes (`scan_returns_each_key_once`).
-/

namespace OlricStack.Dmap.ClusterIterator

open Node

variable {w : Cluster} {config : ScanConfig} {s s' : ClusterIterator} {kind : Kind}

/-! ## More fuel -/

theorem fetchLoop_succ {fuel : ℕ} {r : ClusterIterator × Bool}
    (h : fetchLoop w config fuel s = some r) : fetchLoop w config (fuel + 1) s = some r := by
  induction fuel generalizing s with
  | zero => cases h
  | succ fuel ih =>
    rw [fetchLoop] at h ⊢
    split_ifs at h ⊢
    · exact h
    · exact h
    · exact h
    · exact ih h

theorem next_succ {fuel : ℕ} {r : ClusterIterator × Bool} (h : next w config fuel s = some r) :
    next w config (fuel + 1) s = some r := by
  induction fuel generalizing s with
  | zero => cases h
  | succ fuel ih =>
    rw [next] at h ⊢
    by_cases readable : s.Readable
    · rwa [if_pos readable] at h ⊢
    · rw [if_neg readable] at h ⊢
      obtain ⟨fetched, looped, h⟩ := Option.bind_eq_some_iff.1 h
      refine Option.bind_eq_some_iff.2 ⟨fetched, fetchLoop_succ looped, ?_⟩
      split_ifs at h ⊢
      · exact h
      · exact h
      · exact ih h
      · exact h

/-- The caller goes on where another iterator is one call of `next` behind. -/
theorem drain_of_next {fuel : ℕ} {ks : List Bytes}
    (more : ∀ s ks, drain w config fuel s = some ks → drain w config (fuel + 1) s = some ks)
    (same : ∀ r, next w config fuel s' = some r → next w config (fuel + 1) s = some r)
    (h : drain w config (fuel + 1) s' = some ks) : drain w config (fuel + 2) s = some ks := by
  obtain ⟨r, called, h⟩ := Option.bind_eq_some_iff.1 h
  refine Option.bind_eq_some_iff.2 ⟨r, same r called, ?_⟩
  split_ifs at h ⊢
  · obtain ⟨rest, drained, rfl⟩ := Option.map_eq_some_iff.1 h
    exact Option.map_eq_some_iff.2 ⟨rest, more _ rest drained, rfl⟩
  · exact h

theorem drain_succ {fuel : ℕ} {ks : List Bytes} (h : drain w config fuel s = some ks) :
    drain w config (fuel + 1) s = some ks := by
  induction fuel generalizing s ks with
  | zero => cases h
  | succ fuel ih => exact drain_of_next (fun _ _ => ih) (fun _ => next_succ) h

theorem drain_mono {fuel more : ℕ} (le : fuel ≤ more) {ks : List Bytes}
    (h : drain w config fuel s = some ks) : drain w config more s = some ks := by
  induction le with
  | refl => exact h
  | step _ ih => exact drain_succ ih

/-! ## Rounds -/

/-- Between two pages. -/
structure Blank (s : ClusterIterator) : Prop where
  page : s.page = []
  pos : s.pos = 0

theorem Blank.not_readable (blank : s.Blank) : ¬ s.Readable := fun readable =>
  readable.1 blank.page

theorem Blank.resetPage (blank : s.Blank) : s.resetPage = s := by
  obtain ⟨page, pos⟩ := blank
  cases s
  cases page
  cases pos
  rfl

theorem resetPage_blank (s : ClusterIterator) : s.resetPage.Blank := ⟨rfl, rfl⟩

theorem next_resetPage (fuel : ℕ) (read : ¬ s.Readable) :
    next w config fuel s = next w config fuel s.resetPage := by
  cases fuel with
  | zero => rfl
  | succ fuel =>
    rw [next, next, if_neg read, if_neg s.resetPage_blank.not_readable]
    rfl

/-- The caller reads the page. -/
theorem drain_page {fuel : ℕ} {ks : List Bytes} (le : s.pos ≤ s.page.length)
    (h : drain w config fuel s.resetPage = some ks) :
    ∃ fuel, drain w config fuel s = some (s.page.drop s.pos ++ ks) := by
  obtain ⟨n, rest⟩ := Nat.exists_eq_add_of_le le
  induction n generalizing s with
  | zero =>
    refine ⟨fuel, ?_⟩
    have read : ¬ s.Readable := fun readable => absurd readable.2 (by omega)
    rw [List.drop_of_length_le (by omega), List.nil_append]
    cases fuel with
    | zero => cases h
    | succ fuel => rwa [drain, next_resetPage fuel read]
  | succ n ih =>
    obtain ⟨fuel, drained⟩ :=
      ih (s := s.setPos (s.pos + 1)) (show s.pos + 1 ≤ s.page.length by omega) h
        (show s.page.length = s.pos + 1 + n by omega)
    have lt : s.pos < s.page.length := by omega
    have readable : s.Readable := ⟨List.length_pos_iff.1 (by omega), lt⟩
    refine ⟨fuel + 2, Option.bind_eq_some_iff.2
      ⟨(s.setPos (s.pos + 1), true), by rw [next, if_pos readable], ?_⟩⟩
    rw [if_pos rfl, drain_succ drained, Option.map_some,
      key_eq (s.setPos (s.pos + 1)) rfl lt, List.drop_eq_getElem_cons lt, List.cons_append]
    rfl

/-- `next` behind its loop. -/
theorem Blank.next_eq (blank : s.Blank) {fuel : ℕ}
    (looped : fetchLoop w config fuel s = some (s', true)) :
    next w config (fuel + 1) s =
      if s'.page = [] ∧ s'.Scanned then
        if s'.partID + 1 ≥ w.partitionCount then some (s'.nextPartition, false)
        else next w config fuel (s'.nextPartition.reset w)
      else some (s'.setPos 1, true) := by
  rw [next, if_neg blank.not_readable, blank.resetPage, looped]
  rfl

section

variable (blank : s.Blank) (fetched : s.fetchData w config = (s', true))

include blank fetched

/-- The round has brought keys. -/
theorem drain_fetched (nonempty : s'.page ≠ []) {fuel : ℕ} {ks : List Bytes}
    (h : drain w config fuel s'.resetPage = some ks) :
    ∃ fuel, drain w config fuel s = some (s'.page ++ ks) := by
  have lt : 0 < s'.page.length := List.length_pos_iff.2 nonempty
  obtain ⟨fuel, drained⟩ := drain_page (s := s'.setPos 1) lt h
  have looped : fetchLoop w config (fuel + 1) s = some (s', true) := by
    rw [fetchLoop, fetched]
    simp [nonempty]
  refine ⟨fuel + 3, Option.bind_eq_some_iff.2 ⟨(s'.setPos 1, true), ?_, ?_⟩⟩
  · rw [blank.next_eq looped, if_neg fun finished => nonempty finished.1]
  · rw [if_pos rfl, drain_mono (show fuel ≤ fuel + 2 by omega) drained, Option.map_some,
      key_eq (s'.setPos 1) rfl lt, ← List.cons_append]
    exact congrArg (fun page => some (page ++ ks)) (List.drop_eq_getElem_cons lt).symm

/-- The round has brought nothing, and not all owners are scanned. -/
theorem drain_again (empty : s'.page = []) (pos : s'.pos = 0) (left : ¬ s'.Scanned) {fuel : ℕ}
    {ks : List Bytes} (h : drain w config fuel s' = some ks) :
    drain w config (fuel + 1) s = some ks := by
  have blank' : s'.Blank := ⟨empty, pos⟩
  cases fuel with
  | zero => cases h
  | succ fuel =>
    refine drain_of_next (fun _ _ => drain_succ) (fun r called => ?_) h
    cases fuel with
    | zero => cases called
    | succ fuel =>
      have looped : fetchLoop w config (fuel + 1) s = fetchLoop w config fuel s' := by
        rw [fetchLoop, fetched]
        simp [empty, left]
      rw [next, if_neg blank'.not_readable, blank'.resetPage] at called
      rw [next, if_neg blank.not_readable, blank.resetPage, looped]
      obtain ⟨last, ended, called⟩ := Option.bind_eq_some_iff.1 called
      refine Option.bind_eq_some_iff.2 ⟨last, ended, ?_⟩
      split_ifs at called ⊢
      · exact called
      · exact called
      · exact next_succ called
      · exact called

/-- The partition is over. -/
theorem drain_partition (empty : s'.page = []) (scanned : s'.Scanned)
    (more : s'.partID + 1 < w.partitionCount) {fuel : ℕ} {ks : List Bytes}
    (h : drain w config fuel (s'.nextPartition.reset w) = some ks) :
    drain w config (fuel + 1) s = some ks := by
  cases fuel with
  | zero => cases h
  | succ fuel =>
    refine drain_of_next (fun _ _ => drain_succ) (fun r called => ?_) h
    cases fuel with
    | zero => cases called
    | succ fuel =>
      have looped : fetchLoop w config (fuel + 1) s = some (s', true) := by
        rw [fetchLoop, fetched]
        simp [empty, scanned]
      rw [blank.next_eq looped, if_pos ⟨empty, scanned⟩, if_neg (Nat.not_le.2 more)]
      exact called

/-- The last partition is over. -/
theorem drain_over (empty : s'.page = []) (scanned : s'.Scanned)
    (last : w.partitionCount ≤ s'.partID + 1) : drain w config 3 s = some [] := by
  have looped : fetchLoop w config 1 s = some (s', true) := by
    rw [fetchLoop, fetched]
    simp [empty, scanned]
  refine Option.bind_eq_some_iff.2 ⟨(s'.nextPartition, false), ?_, rfl⟩
  rw [blank.next_eq looped, if_pos ⟨empty, scanned⟩, if_pos last]

end

/-! ## One owner -/

/-- A cluster that answers and does not change its owners, with one owner of each kind at most, and
in which finitely many keys are used. -/
structure Steady (w : Cluster) (config : ScanConfig) (keys : List Bytes) (bound : ℕ) : Prop where
  usable : w.Usable config
  stable : ∀ n table, w.fetched n = some table → table = w.routingTable
  single : ∀ partID kind, (w.routingTable partID kind).length ≤ 1
  finite : ∀ t kind partID owner m, w.fragment t kind partID owner = some m →
    ∀ slot ∈ m.toList, slot.entry.key ∈ keys ∧ slot.hkey ≤ bound

/-- The owner has the matching key all the time. -/
structure Stays (w : Cluster) (config : ScanConfig) (kind : Kind) (partID : ℕ) (owner : String)
    (hkey : ℕ) (key : Bytes) : Prop where
  owned : owner ∈ w.routingTable partID kind
  matching : (w.regexp config).all (fun re => re key) = true
  present : ∀ t, ∃ m, w.fragment t kind partID owner = some m ∧
    ∃ slot ∈ m.toList, slot.hkey = hkey ∧ slot.entry.key = key

/-- What holds between the commands: the lists of the owners have not moved, and a key that stays
is read already or ahead of the cursor. -/
structure Inv (w : Cluster) (config : ScanConfig) (bound : ℕ) (s : ClusterIterator) : Prop where
  within : s.partID < w.partitionCount
  routingTable : s.routingTable = w.routingTable
  array : s.array = w.routingTable s.partID
  left_le : ∀ kind, s.left kind ≤ (w.routingTable s.partID kind).length
  bounded : ∀ kind owner, s.cursors s.partID kind owner ≤ bound
  later : ∀ partID, s.partID < partID → ∀ kind owner, s.cursors partID kind owner = 0
  complete : ∀ kind owner hkey key, Stays w config kind s.partID owner hkey key →
    key ∈ s.partitionKeys ∨ (s.left kind ≠ 0 ∧ s.cursors s.partID kind owner ≤ hkey)

/-- How far the owner, if it is not scanned, is from its end. -/
def work (bound : ℕ) (s : ClusterIterator) (kind : Kind) : ℕ :=
  if s.left kind = 0 then 0
  else bound + 1 - s.cursors s.partID kind ((s.array kind).headD "")

variable {keys : List Bytes} {bound : ℕ}

theorem Steady.fetchRoutingTable (steady : Steady w config keys bound)
    (h : s.routingTable = w.routingTable) :
    (s.fetchRoutingTable w).routingTable = w.routingTable := by
  unfold ClusterIterator.fetchRoutingTable
  split
  · exact h
  · exact steady.stable _ _ ‹_›

theorem Inv.fetchRoutingTable (steady : Steady w config keys bound)
    (inv : s.Inv w config bound) : (s.fetchRoutingTable w).Inv w config bound := by
  obtain ⟨partID, -, -, partitionKeys, array, left, cursors⟩ := fetchRoutingTable_frame w s
  constructor
  · rw [partID]
    exact inv.within
  · exact steady.fetchRoutingTable inv.routingTable
  · rw [array, partID]
    exact inv.array
  · rw [left, partID]
    exact inv.left_le
  · rw [cursors, partID]
    exact inv.bounded
  · rw [cursors, partID]
    exact inv.later
  · rw [cursors, partID, left, partitionKeys]
    exact inv.complete

theorem setOwners_same (inv : s.Inv w config bound) (kind : Kind) (left : ℕ) :
    s.setOwners kind (s.array kind) left =
      { s with left := fun k => if k = kind then left else s.left k } := by
  have array : (fun k => if k = kind then s.array kind else s.array k) = s.array := by
    funext k
    by_cases is : k = kind
    · rw [if_pos is, is]
    · exact if_neg is
  have table : (fun p k => if s.shared ∧ p = s.partID ∧ k = kind then s.array kind
      else s.routingTable p k) = s.routingTable := by
    funext p k
    by_cases is : s.shared = true ∧ p = s.partID ∧ k = kind
    · rw [if_pos is, inv.array, inv.routingTable, is.2.1, is.2.2]
    · exact if_neg is
  rw [setOwners, array, table]

/-- The only owner is taken out, and its list does not move. -/
theorem Inv.removeScannedOwner (steady : Steady w config keys bound) (inv : s.Inv w config bound)
    (kind : Kind) : s.removeScannedOwner kind 0 =
      { s with left := fun k => if k = kind then 0 else s.left k } := by
  have few := steady.single s.partID kind
  have le := inv.left_le kind
  unfold ClusterIterator.removeScannedOwner
  split_ifs with listed
  · have one : (w.routingTable s.partID kind).length = 1 := by omega
    obtain ⟨owner, owners⟩ := List.length_eq_one_iff.1 one
    have left : s.left kind = 1 := by omega
    have same : removeAt (s.array kind) (s.left kind) 0 = s.array kind := by
      rw [inv.array, owners, left]
      rfl
    rw [same, setOwners_same inv, left]
  · have unchanged : (fun k => if k = kind then 0 else s.left k) = s.left := by
      funext k
      by_cases is : k = kind
      · rw [if_pos is, is]
        omega
      · exact if_neg is
    rw [unchanged]

/-- What a round does to the owners of a kind: they are scanned or nearer to the end. -/
structure Progress (bound : ℕ) (kind : Kind) (s s' : ClusterIterator) : Prop where
  others : ∀ k, k ≠ kind → s'.left k = s.left k ∧ s'.work bound k = s.work bound k
  nearer : s'.left kind = 0 ∨ s'.work bound kind < s.work bound kind

theorem foldl_addKey_frame (keys : List Bytes) (s : ClusterIterator) :
    (keys.foldl addKey s).partID = s.partID ∧ (keys.foldl addKey s).array = s.array ∧
      (keys.foldl addKey s).left = s.left ∧ (keys.foldl addKey s).cursors = s.cursors ∧
      (keys.foldl addKey s).routingTable = s.routingTable := by
  induction keys generalizing s with
  | nil => exact ⟨rfl, rfl, rfl, rfl, rfl⟩
  | cons key keys ih =>
    have one : (s.addKey key).partID = s.partID ∧ (s.addKey key).array = s.array ∧
        (s.addKey key).left = s.left ∧ (s.addKey key).cursors = s.cursors ∧
        (s.addKey key).routingTable = s.routingTable := by
      unfold addKey
      split_ifs <;> exact ⟨rfl, rfl, rfl, rfl, rfl⟩
    obtain ⟨partID, array, left, cursors, table⟩ := ih (s.addKey key)
    exact ⟨partID.trans one.1, array.trans one.2.1, left.trans one.2.2.1,
      cursors.trans one.2.2.2.1, table.trans one.2.2.2.2⟩

theorem Stays.mem_items {items : List Bytes} {newCursor cursor t partID hkey : ℕ}
    {owner : String} {key : Bytes} (stays : Stays w config kind partID owner hkey key)
    (answer : Answer (w.regexp config) (w.fragment t kind partID owner) cursor items newCursor)
    (ahead : cursor ≤ hkey)
    (passed : newCursor = 0 ∨ hkey < newCursor) : key ∈ items := by
  obtain ⟨m, is, slot, member, rfl, rfl⟩ := stays.present t
  exact answer.complete m is slot member stays.matching ahead passed

/-- An answer moves the cursor and adds the keys. -/
structure Updated (s u : ClusterIterator) (kind : Kind) (items : List Bytes) (newCursor : ℕ)
    (owner : String) : Prop where
  partID : u.partID = s.partID
  array : u.array = s.array
  left : u.left = s.left
  routingTable : u.routingTable = s.routingTable
  cursor : u.cursors s.partID kind owner = newCursor
  cursors : ∀ p k o, ¬ (p = s.partID ∧ k = kind ∧ o = owner) → u.cursors p k o = s.cursors p k o
  old : ∀ key ∈ s.partitionKeys, key ∈ u.partitionKeys
  new : ∀ key ∈ items, key ∈ u.partitionKeys

theorem updateIterator_updated (kind : Kind) {items : List Bytes}
    (held : ∀ key ∈ items, Held w config s.partID key) (newCursor : ℕ) (owner : String) :
    Updated s (s.countCall.updateIterator kind items newCursor owner) kind items newCursor owner :=
      by
  obtain ⟨partID, array, left, cursors, table⟩ := foldl_addKey_frame items s.countCall
  obtain ⟨added, h, all⟩ := foldl_addKey_extends items s.countCall held
  refine ⟨partID, array, left, table, if_pos ⟨partID.symm, rfl, rfl⟩, fun p k o other => ?_,
    fun key member => ?_, all⟩
  · refine (if_neg ?_).trans (congrFun (congrFun (congrFun cursors p) k) o)
    rwa [partID]
  · exact h.partitionKeys.symm ▸ List.mem_append_left _ member

/-- The answer of the only owner of a kind keeps the invariant, and with the last answer all keys
that stay there are read. -/
theorem Updated.inv {u : ClusterIterator} {owner : String} {items : List Bytes} {newCursor : ℕ}
    (updated : Updated s u kind items newCursor owner) (steady : Steady w config keys bound)
    (inv : s.Inv w config bound) (owners : w.routingTable s.partID kind = [owner])
    (answer : Answer (w.regexp config) (w.fragment s.calls kind s.partID owner)
      (s.loadCursor kind owner) items newCursor) :
    u.Inv w config bound ∧ (newCursor = 0 → ∀ o hkey key,
      Stays w config kind s.partID o hkey key → key ∈ u.partitionKeys) := by
  have only o hkey key (stays : Stays w config kind s.partID o hkey key) : o = owner := by
    have member := stays.owned
    rwa [owners, List.mem_singleton] at member
  have read hkey key (stays : Stays w config kind s.partID owner hkey key)
      (passed : newCursor = 0 ∨ hkey < newCursor) : key ∈ u.partitionKeys := by
    rcases inv.complete kind owner hkey key stays with known | ⟨-, ahead⟩
    · exact updated.old key known
    · exact updated.new key (stays.mem_items answer ahead passed)
  have bounded : newCursor ≤ bound := by
    by_cases last : newCursor = 0
    · omega
    · obtain ⟨-, m, is, slot, member, rfl⟩ := answer.more last
      exact (steady.finite _ _ _ _ m is slot member).2
  refine ⟨?_, fun last o hkey key stays => ?_⟩
  · constructor
    · rw [updated.partID]
      exact inv.within
    · rw [updated.routingTable]
      exact inv.routingTable
    · rw [updated.array, updated.partID]
      exact inv.array
    · rw [updated.left, updated.partID]
      exact inv.left_le
    · intro k o
      rw [updated.partID]
      by_cases is : s.partID = s.partID ∧ k = kind ∧ o = owner
      · obtain ⟨-, rfl, rfl⟩ := is
        rwa [updated.cursor]
      · rw [updated.cursors _ _ _ is]
        exact inv.bounded k o
    · intro p later k o
      rw [updated.partID] at later
      rw [updated.cursors p k o fun is => absurd is.1 later.ne']
      exact inv.later p later k o
    · intro k o hkey key stays
      rw [updated.partID] at stays ⊢
      by_cases is : k = kind
      · subst is
        obtain rfl := only o hkey key stays
        by_cases passed : newCursor = 0 ∨ hkey < newCursor
        · exact .inl (read hkey key stays passed)
        · rcases inv.complete k o hkey key stays with known | ⟨left, -⟩
          · exact .inl (updated.old key known)
          · rw [updated.left, updated.cursor]
            exact .inr ⟨left, by omega⟩
      · rw [updated.left, updated.cursors _ _ _ fun h => is h.2.1]
        exact (inv.complete k o hkey key stays).imp_left (updated.old key)
  · obtain rfl := only o hkey key stays
    exact read hkey key stays (.inl last)

theorem work_congr (kind : Kind) (partID : s'.partID = s.partID) (array : s'.array = s.array)
    (left : s'.left kind = s.left kind)
    (cursors : ∀ o, s'.cursors s.partID kind o = s.cursors s.partID kind o) :
    s'.work bound kind = s.work bound kind := by
  simp only [work, left, array, partID, cursors]

theorem fetchRoutingTable_work (bound : ℕ) (w : Cluster) (s : ClusterIterator) (kind : Kind) :
    (s.fetchRoutingTable w).left kind = s.left kind ∧
      (s.fetchRoutingTable w).work bound kind = s.work bound kind := by
  obtain ⟨partID, -, -, -, array, left, cursors⟩ := fetchRoutingTable_frame w s
  exact ⟨congrFun left kind, work_congr kind partID array (congrFun left kind)
    fun o => by rw [cursors]⟩

/-- Once all keys that stay at the owners of a kind are read these owners may be taken out. -/
theorem Inv.scanned (inv : s.Inv w config bound) (read : ∀ owner hkey key,
      Stays w config kind s.partID owner hkey key → key ∈ s.partitionKeys) :
    Inv w config bound { s with left := fun k => if k = kind then 0 else s.left k } where
  within := inv.within
  routingTable := inv.routingTable
  array := inv.array
  left_le k := by
    dsimp only
    split_ifs
    · exact Nat.zero_le _
    · exact inv.left_le k
  bounded := inv.bounded
  later := inv.later
  complete k owner hkey key stays := by
    dsimp only
    split_ifs with is
    · subst is
      exact .inl (read owner hkey key stays)
    · exact inv.complete k owner hkey key stays

theorem Updated.work_of_ne (bound : ℕ) {u : ClusterIterator} {owner : String} {items : List Bytes}
    {newCursor : ℕ} (updated : Updated s u kind items newCursor owner) {k : Kind}
    (other : k ≠ kind) : u.left k = s.left k ∧ u.work bound k = s.work bound k := by
  have left := congrFun updated.left k
  exact ⟨left, work_congr k updated.partID updated.array left
    fun o => updated.cursors _ k o fun is => other is.2.1⟩

/-- An owner that is not scanned comes nearer to its end. -/
theorem Updated.work_lt {u : ClusterIterator} {owner : String} {items : List Bytes}
    {newCursor : ℕ} (updated : Updated s u kind items newCursor owner)
    (owners : s.array kind = [owner]) (left : s.left kind ≠ 0)
    (bounded : s.cursors s.partID kind owner ≤ bound)
    (lt : s.cursors s.partID kind owner < newCursor) : u.work bound kind < s.work bound kind := by
  simp only [work, updated.left, updated.array, updated.partID, owners, if_neg left,
    List.headD_cons, updated.cursor]
  omega

theorem Inv.answered (steady : Steady w config keys bound) (inv : s.Inv w config bound)
    {owner : String} (owners : w.routingTable s.partID kind = [owner]) {items : List Bytes}
    {newCursor : ℕ} (asked : w.ask config s.calls kind s.partID owner (s.loadCursor kind owner) =
      some (items, newCursor)) :
    (s.answered w kind items newCursor owner 0).Inv w config bound ∧
      Progress bound kind s (s.answered w kind items newCursor owner 0) := by
  have answer := Cluster.ask_answer asked
  have held : ∀ key ∈ items, Held w config s.partID key := fun key member => by
    obtain ⟨m, is, slot⟩ := answer.sound key member
    exact ⟨_, _, _, m, is, slot⟩
  have updated := updateIterator_updated kind held newCursor owner
  unfold ClusterIterator.answered
  generalize s.countCall.updateIterator kind items newCursor owner = u at updated
  obtain ⟨kept, read⟩ := updated.inv steady inv owners answer
  have fetched := kept.fetchRoutingTable steady
  have frame := fetchRoutingTable_frame w u
  have other k (other : k ≠ kind) : (u.fetchRoutingTable w).left k = s.left k ∧
      (u.fetchRoutingTable w).work bound k = s.work bound k := by
    obtain ⟨left, same⟩ := fetchRoutingTable_work bound w u k
    obtain ⟨left', same'⟩ := updated.work_of_ne bound other
    exact ⟨left.trans left', same.trans same'⟩
  dsimp only
  split_ifs with last
  · rw [fetched.removeScannedOwner steady kind]
    refine ⟨fetched.scanned fun o hkey key stays => ?_, fun k ne => ⟨?_, ?_⟩, .inl (if_pos rfl)⟩
    · rw [frame.1, updated.partID] at stays
      rw [frame.2.2.2.1]
      exact read last o hkey key stays
    · exact (if_neg ne).trans (other k ne).1
    · rw [← (other k ne).2]
      exact work_congr k rfl rfl (if_neg ne) fun _ => rfl
  · refine ⟨fetched, other, ?_⟩
    obtain ⟨left, same⟩ := fetchRoutingTable_work bound w u kind
    rw [left, same, updated.left]
    by_cases nothing : s.left kind = 0
    · exact .inl nothing
    · exact .inr (updated.work_lt (by rw [inv.array, owners]) nothing (inv.bounded kind owner)
        (answer.more last).1)

theorem Inv.scanOnOwners (steady : Steady w config keys bound) (inv : s.Inv w config bound)
    (kind : Kind) : ∃ s', s.scanOnOwners w config kind = (s', true) ∧ s'.Inv w config bound ∧
      Progress bound kind s s' := by
  have fetched := inv.fetchRoutingTable steady
  have frame k := fetchRoutingTable_work bound w s k
  have few := steady.single (s.fetchRoutingTable w).partID kind
  have owners : (s.fetchRoutingTable w).getOwners kind =
      w.routingTable (s.fetchRoutingTable w).partID kind := by
    rw [getOwners, fetched.routingTable]
  unfold ClusterIterator.scanOnOwners
  dsimp only
  rw [owners]
  rcases list : w.routingTable (s.fetchRoutingTable w).partID kind with
    _ | ⟨owner, _ | ⟨second, rest⟩⟩
  · have nothing := fetched.left_le kind
    rw [list] at nothing
    exact ⟨_, rfl, fetched, fun k _ => frame k, .inl (Nat.le_zero.1 nothing)⟩
  · obtain ⟨⟨items, newCursor⟩, asked⟩ := Option.isSome_iff_exists.1
      (steady.usable.ask_isSome (s.fetchRoutingTable w).calls kind (s.fetchRoutingTable w).partID
        owner ((s.fetchRoutingTable w).loadCursor kind owner))
    obtain ⟨kept, progress⟩ := fetched.answered steady list asked
    refine ⟨_, by rw [scanLoop, asked]; rfl, kept, fun k ne => ?_, ?_⟩
    · exact ⟨(progress.others k ne).1.trans (frame k).1, (progress.others k ne).2.trans (frame k).2⟩
    · rw [← (frame kind).2]
      exact progress.nearer
  · rw [list] at few
    exact absurd few (by simp)

/-- A round. -/
theorem Inv.fetchData (steady : Steady w config keys bound) (inv : s.Inv w config bound) :
    ∃ s', s.fetchData w config = (s', true) ∧ s'.Inv w config bound ∧
      ∀ kind, s'.left kind = 0 ∨ s'.work bound kind < s.work bound kind := by
  obtain ⟨r, scanned, first, progress⟩ := inv.scanOnOwners steady .primary
  obtain ⟨s', scanned', kept, progress'⟩ := first.scanOnOwners steady .replica
  refine ⟨s', by rw [ClusterIterator.fetchData, scanned]; exact scanned', kept, fun kind => ?_⟩
  cases kind with
  | primary =>
    rw [(progress'.others .primary (by decide)).1, (progress'.others .primary (by decide)).2]
    exact progress.nearer
  | replica =>
    rw [← (progress.others .replica (by decide)).2]
    exact progress'.nearer

/-! ## To the end -/

/-- The keys in use that are not read. -/
def unread (keys : List Bytes) (s : ClusterIterator) : ℕ :=
  (keys.toFinset \ s.partitionKeys.toFinset).card

/-- What an iteration between two pages still has to bring. -/
def Owed (w : Cluster) (config : ScanConfig) (s : ClusterIterator) (key : Bytes) : Prop :=
  ∃ kind partID owner hkey, partID < w.partitionCount ∧ Stays w config kind partID owner hkey key ∧
    (s.partID < partID ∨ s.partID = partID ∧ key ∉ s.partitionKeys)

/-- A partition that is new to the iterator. -/
theorem Steady.loadRoute (steady : Steady w config keys bound)
    (within : s.partID < w.partitionCount) (table : s.routingTable = w.routingTable)
    (zero : ∀ partID, s.partID ≤ partID → ∀ kind owner, s.cursors partID kind owner = 0) :
    (s.loadRoute w).Inv w config bound := by
  obtain ⟨partID, -, -, -, -, -, cursors⟩ := fetchRoutingTable_frame w s
  have kept : (s.loadRoute w).partID = s.partID := partID
  have table' : (s.loadRoute w).routingTable = w.routingTable := steady.fetchRoutingTable table
  have fresh : (s.loadRoute w).cursors = s.cursors := cursors
  have left kind : (s.loadRoute w).left kind =
      ((s.loadRoute w).routingTable (s.loadRoute w).partID kind).length := rfl
  constructor
  · rwa [kept]
  · exact table'
  · exact congrFun table' _
  · intro kind
    rw [left, table']
  · intro kind owner
    rw [kept, fresh, zero _ le_rfl]
    exact Nat.zero_le _
  · intro p later kind owner
    rw [kept] at later
    rw [fresh]
    exact zero p later.le kind owner
  · intro kind owner hkey key stays
    rw [left, table', kept, fresh, zero _ le_rfl]
    have owned := stays.owned
    rw [kept] at owned
    exact .inr ⟨(List.length_pos_of_mem owned).ne', Nat.zero_le _⟩

theorem Inv.reset (steady : Steady w config keys bound) (inv : s.Inv w config bound)
    (more : s.partID + 1 < w.partitionCount) : (s.nextPartition.reset w).Inv w config bound :=
  steady.loadRoute (s := { s.nextPartition.resetPage with partitionKeys := [] }) more
    inv.routingTable fun partID le => inv.later partID le

theorem unread_lt {added : List Bytes} (steady : Steady w config keys bound)
    (h : Extends w config s s' added) (nonempty : added ≠ []) : s'.unread keys < s.unread keys := by
  obtain ⟨key, new⟩ := List.exists_mem_of_ne_nil added nonempty
  have used : key ∈ keys := by
    obtain ⟨t, kind, owner, m, is, slot, member, -, rfl⟩ := h.held key new
    exact (steady.finite _ _ _ _ m is slot member).1
  refine Finset.card_lt_card ⟨fun k => ?_, fun all => ?_⟩
  · simp only [Finset.mem_sdiff, List.mem_toFinset, h.partitionKeys, List.mem_append]
    tauto
  · have member : key ∈ keys.toFinset \ s.partitionKeys.toFinset := by
      simpa [used] using h.fresh key new
    simpa [h.partitionKeys, new] using all member

theorem work_of_left {kind : Kind} (nothing : s.left kind = 0) : s.work bound kind = 0 :=
  if_pos nothing

/-- What a partition owes goes over to the next one. -/
theorem Owed.reset {key : Bytes} (owed : Owed w config s key) (same : s'.partID = s.partID)
    (scanned : ∀ kind owner hkey, Stays w config kind s.partID owner hkey key →
      key ∈ s.partitionKeys) : Owed w config (s'.nextPartition.reset w) key ∧
      s'.partID + 1 < w.partitionCount := by
  obtain ⟨kind, partID, owner, hkey, within, stays, place⟩ := owed
  obtain ⟨-, moved, -, -, keys⟩ := reset_tidy w config s'.nextPartition
  have next : (s'.nextPartition.reset w).partID = s.partID + 1 :=
    moved.trans (congrArg Nat.succ same)
  have later : s.partID < partID := by
    rcases place with later | ⟨rfl, unread⟩
    · exact later
    · exact absurd (scanned kind owner hkey stays) unread
  refine ⟨⟨kind, partID, owner, hkey, within, stays, ?_⟩, by omega⟩
  rw [next, keys]
  rcases Nat.lt_or_eq_of_le (Nat.succ_le_of_lt later) with lt | eq
  · exact .inl lt
  · exact .inr ⟨eq, List.not_mem_nil⟩

/-- A partition whose owners are scanned owes nothing. -/
theorem Inv.read_of_scanned (inv : s.Inv w config bound) (scanned : s.Scanned) {owner : String}
    {hkey : ℕ} {key : Bytes} (stays : Stays w config kind s.partID owner hkey key) :
    key ∈ s.partitionKeys := by
  refine (inv.complete kind owner hkey key stays).resolve_right fun ahead => ?_
  cases kind with
  | primary => exact ahead.1 scanned.1
  | replica => exact ahead.1 scanned.2

/-- What is left to do in a partition, at most. -/
def remaining (keys : List Bytes) (bound : ℕ) (s : ClusterIterator) : ℕ :=
  s.unread keys + s.work bound .primary + s.work bound .replica

/-- A round between two pages: the partition is over, or there is less to do. -/
theorem Inv.round (steady : Steady w config keys bound) (inv : s.Inv w config bound)
    (blank : s.Blank) :
    ∃ s', s.fetchData w config = (s', true) ∧ s'.Inv w config bound ∧
      Extends w config s s' s'.page ∧
      (¬ (s'.page = [] ∧ s'.Scanned) → s'.remaining keys bound < s.remaining keys bound) := by
  obtain ⟨s', fetched, kept, nearer⟩ := inv.fetchData steady
  obtain ⟨added, extended⟩ := fetchData_extends w config s
  rw [fetched] at extended
  have page : s'.page = added := by
    rw [← List.nil_append added, ← blank.page]
    exact extended.page
  subst page
  refine ⟨s', fetched, kept, extended, fun more => ?_⟩
  have le kind : s'.work bound kind ≤ s.work bound kind := by
    rcases nearer kind with nothing | lt
    · exact (work_of_left nothing).trans_le (Nat.zero_le _)
    · exact lt.le
  have first := le .primary
  have second := le .replica
  unfold remaining
  by_cases empty : s'.page = []
  · have unread : s'.unread keys = s.unread keys := by
      rw [ClusterIterator.unread, extended.partitionKeys, empty, List.append_nil]
      rfl
    rcases nearer .primary with nothing | lt
    · rcases nearer .replica with none' | lt
      · exact absurd ⟨empty, nothing, none'⟩ more
      · omega
    · omega
  · have lt : s'.unread keys < s.unread keys := unread_lt steady extended empty
    omega

/-- What a round does not bring it still owes. -/
theorem Owed.fetched {key : Bytes} (owed : Owed w config s key)
    (extended : Extends w config s s' s'.page) : key ∈ s'.page ∨ Owed w config s' key := by
  obtain ⟨kind, partID, owner, hkey, within, stays, place⟩ := owed
  by_cases read : key ∈ s'.page
  · exact .inl read
  · refine .inr ⟨kind, partID, owner, hkey, within, stays, ?_⟩
    rw [extended.partID, extended.partitionKeys, List.mem_append, not_or]
    exact place.imp_right fun here => ⟨here.1, here.2, read⟩

/-- The iteration ends, and brings the keys that stay. -/
theorem drain_ends (steady : Steady w config keys bound) (inv : s.Inv w config bound)
    (blank : s.Blank) :
    ∃ fuel ks, drain w config fuel s = some ks ∧ ∀ key, Owed w config s key → key ∈ ks := by
  -- over the partitions, and in a partition over its rounds
  induction partitions : w.partitionCount - s.partID using Nat.strong_induction_on
    generalizing s with
  | _ n outer =>
  induction rounds : s.remaining keys bound using Nat.strong_induction_on generalizing s with
  | _ m inner =>
    obtain ⟨s', fetched, kept, extended, less⟩ := inv.round steady blank
    have same : s'.partID = s.partID := extended.partID
    have within := inv.within
    by_cases finished : s'.page = [] ∧ s'.Scanned
    · obtain ⟨empty, scanned⟩ := finished
      have keep : s'.partitionKeys = s.partitionKeys := by
        rw [extended.partitionKeys, empty, List.append_nil]
      have read key kind owner hkey (stays : Stays w config kind s.partID owner hkey key) :
          key ∈ s.partitionKeys :=
        keep ▸ kept.read_of_scanned scanned (same.symm ▸ stays)
      by_cases more : s'.partID + 1 < w.partitionCount
      · obtain ⟨-, moved, page, pos, -⟩ := reset_tidy w config s'.nextPartition
        have next : (s'.nextPartition.reset w).partID = s'.partID + 1 := moved
        obtain ⟨fuel, ks, drained, all⟩ :=
          outer _ (by rw [next]; omega) (kept.reset steady more) ⟨page, pos⟩ rfl
        exact ⟨fuel + 1, ks, drain_partition blank fetched empty scanned more drained,
          fun key owed => all key (owed.reset same (read key)).1⟩
      · exact ⟨3, [], drain_over blank fetched empty scanned (by omega),
          fun key owed => absurd (owed.reset same (read key)).2 more⟩
    · obtain ⟨fuel, ks, drained, all⟩ := inner (s'.resetPage.remaining keys bound)
        (rounds ▸ less finished) (s := s'.resetPage)
        ⟨kept.within, kept.routingTable, kept.array, kept.left_le, kept.bounded, kept.later,
          kept.complete⟩ s'.resetPage_blank (by rw [← partitions, ← same]; rfl) rfl
      by_cases empty : s'.page = []
      · have blank' : s'.Blank := ⟨empty, extended.pos.trans blank.pos⟩
        rw [blank'.resetPage] at drained all
        exact ⟨fuel + 1, ks, drain_again blank fetched empty blank'.pos
          (fun scanned => finished ⟨empty, scanned⟩) drained,
          fun key owed => all key ((owed.fetched extended).resolve_left (by simp [empty]))⟩
      · obtain ⟨fuel, drained⟩ := drain_fetched blank fetched empty drained
        exact ⟨fuel, _, drained, fun key owed => (owed.fetched extended).elim
          (List.mem_append_left _) fun later => List.mem_append_right _ (all key later)⟩

theorem start_blank (w : Cluster) : (start w).Blank ∧ (start w).partitionKeys = [] ∧
    (start w).partID = 0 := by
  obtain ⟨partID, pos, page, partitionKeys, -⟩ := fetchRoutingTable_frame w
    ⟨0, [], fun _ => [], fun _ => 0, false, [], fun _ _ _ => 0, 0, w.routingTable, 0, 0⟩
  exact ⟨⟨page, pos⟩, partitionKeys, partID⟩

/-- Iterating while others write.  With one owner and one replica owner at most for a partition the
iteration ends, it brings no key twice and only keys that were there, and it brings every matching
key that an owner has all the time, whatever is put and deleted meanwhile and however often the
routing table is fetched again, as long as it names the same owners each time. -/
theorem scan_returns_each_key_once {w : Cluster} {config : ScanConfig} {part : Bytes → ℕ}
    (placed : Placed w part) {keys : List Bytes} {bound : ℕ}
    (steady : Steady w config.prepare keys bound) (positive : 0 < w.partitionCount) :
    ∃ fuel ks, (∀ more ≥ fuel, drain w config.prepare more (start w) = some ks) ∧ ks.Nodup ∧
      (∀ key ∈ ks, Held w config.prepare (part key) key) ∧
      ∀ kind partID owner hkey key, partID < w.partitionCount →
        Stays w config.prepare kind partID owner hkey key → key ∈ ks := by
  obtain ⟨blank, nothing, first⟩ := start_blank w
  have inv : (start w).Inv w config.prepare bound :=
    steady.loadRoute positive rfl fun _ _ _ _ => rfl
  have tidy : (start w).Tidy w config.prepare := by
    refine ⟨⟨[], by rw [nothing, blank.page]; rfl⟩, nothing ▸ .nil, fun key member => ?_⟩
    rw [nothing] at member
    cases member
  obtain ⟨fuel, ks, drained, all⟩ := drain_ends steady inv blank
  obtain ⟨distinct, pending⟩ := drain_pending placed tidy drained
  refine ⟨fuel, ks, fun more le => drain_mono le drained, distinct,
    fun key member => (pending key member).held, fun kind partID owner hkey key within stays => ?_⟩
  refine all key ⟨kind, partID, owner, hkey, within, stays, ?_⟩
  rw [first, nothing]
  rcases Nat.eq_zero_or_pos partID with rfl | later
  · exact .inr ⟨rfl, List.not_mem_nil⟩
  · exact .inl later

/-- Two entries, one of which is also at the replica owner, and a third one that is deleted after
the first command. -/
def twoCopies : Cluster where
  partitionCount := 1
  routingTable := fun _ kind => if kind = .primary then ["a"] else ["b"]
  fetched := fun n =>
    if n = 3 then some fun _ kind => if kind = .primary then ["a"] else ["b"] else none
  this := some "a"
  compile := fun _ => none
  compile_nil := fun _ h => absurd h.symm (Option.some_ne_none _)
  reachable := fun _ _ => true
  fragment := fun t kind partID _ =>
    if partID ≠ 0 then none
    else if kind = .replica then some (Engine.put .empty 4 ⟨[1], [], 0, 0, 0⟩)
    else if t = 0 then some (((Engine.put .empty 4 ⟨[1], [], 0, 0, 0⟩).put 7
      ⟨[2], [], 0, 0, 0⟩).put 5 ⟨[3], [], 0, 0, 0⟩)
    else some ((Engine.put .empty 4 ⟨[1], [], 0, 0, 0⟩).put 7 ⟨[2], [], 0, 0, 0⟩)

theorem scan_returns_each_key_once_deleted :
    drain twoCopies (ScanConfig.prepare ⟨true, 1, false, []⟩) 9 (start twoCopies) =
      some [[1], [2]] ∧
    ∃ fuel ks, (∀ more ≥ fuel, drain twoCopies (ScanConfig.prepare ⟨true, 1, false, []⟩) more
        (start twoCopies) = some ks) ∧
      ks.Nodup ∧ [2] ∈ ks := by
  refine ⟨by decide +kernel, ?_⟩
  have fragments t kind partID owner m (is : twoCopies.fragment t kind partID owner = some m) :
      partID = 0 ∧ ∀ slot ∈ m.toList, slot.entry.key ∈ [[1], [2], [3]] ∧ slot.hkey ≤ 7 := by
    simp only [twoCopies] at is
    split_ifs at is with other replica first
    all_goals
      cases is
      exact ⟨not_not.1 other, by decide +kernel⟩
  have placed : Placed twoCopies fun _ => 0 := fun t kind partID owner m is _ _ =>
    (fragments t kind partID owner m is).1.symm
  have steady : Steady twoCopies (ScanConfig.prepare ⟨true, 1, false, []⟩) [[1], [2], [3]] 7 := by
    refine ⟨⟨fun _ _ => rfl, fun matching => absurd matching (by decide)⟩, fun n table is => ?_,
      fun _ kind => ?_, fun t kind partID owner m is => (fragments t kind partID owner m is).2⟩
    · simp only [twoCopies] at is
      split_ifs at is
      cases is
      rfl
    · cases kind <;> exact le_rfl
  obtain ⟨fuel, ks, drained, distinct, -, all⟩ :=
    scan_returns_each_key_once placed steady (show 0 < 1 by decide)
  refine ⟨fuel, ks, drained, distinct, all .primary 0 "a" 7 [2] (by decide) ⟨by decide, rfl, ?_⟩⟩
  intro t
  by_cases first : t = 0
  · subst first
    exact ⟨_, rfl, by decide +kernel⟩
  · refine ⟨(Engine.put .empty 4 ⟨[1], [], 0, 0, 0⟩).put 7 ⟨[2], [], 0, 0, 0⟩, ?_,
      by decide +kernel⟩
    simp [twoCopies, first]

end OlricStack.Dmap.ClusterIterator
