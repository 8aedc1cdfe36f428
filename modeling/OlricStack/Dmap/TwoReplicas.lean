import Mathlib.Logic.Function.Iterate
import OlricStack.Dmap.Iterator

/-!
# Iterating with two replica owners

When the first of two owners is scanned and taken out of the list, the second one moves to its place
and is also left in its own.  If it comes to its end in the same round it is not taken out, since
its index is behind the list now.  From then on it gets two commands in each round, and only an end
at the first one takes it out.  With an even number of commands to the end this does not happen.
The iteration comes to such a partition, or has hung before it, and does not end (`scan_hangs`)
until the routing table is fetched again.
-/

namespace OlricStack.Dmap.ClusterIterator

open Node

variable {w : Cluster} {config : ScanConfig} {s : ClusterIterator}

/-- What the rounds over the owners of one kind depend on. -/
structure Side where
  partID : ℕ
  array : List String
  left : ℕ
  shared : Bool
  table : List String
  cursor : String → ℕ

/-- The part of the iterator that belongs to the owners of a kind in its partition. -/
def side (s : ClusterIterator) (kind : Kind) : Side :=
  ⟨s.partID, s.array kind, s.left kind, s.shared, s.routingTable s.partID kind,
    s.cursors s.partID kind⟩

namespace Side

/-- The owner at `idx` is taken out of the list. -/
def removeAt (d : Side) (idx : ℕ) : Side :=
  if 0 < d.left ∧ idx < d.left then
    let array := ClusterIterator.removeAt d.array d.left idx
    { d with array := array, left := d.left - 1, table := if d.shared then array else d.table }
  else d

/-- The owner at `idx` has answered with a new cursor. -/
def answered (d : Side) (newCursor : ℕ) (owner : String) (idx : ℕ) : Side :=
  let d := { d with cursor := Function.update d.cursor owner newCursor }
  if newCursor = 0 then d.removeAt idx else d

theorem answered_partID (d : Side) (newCursor : ℕ) (owner : String) (idx : ℕ) :
    (d.answered newCursor owner idx).partID = d.partID := by
  unfold answered removeAt
  dsimp only
  split_ifs <;> rfl

theorem answered_more (d : Side) {newCursor : ℕ} (more : newCursor ≠ 0) (owner : String)
    (idx : ℕ) : d.answered newCursor owner idx =
      { d with cursor := Function.update d.cursor owner newCursor } := if_neg more

theorem answered_last (d : Side) (owner : String) (idx : ℕ) : d.answered 0 owner idx =
    removeAt { d with cursor := Function.update d.cursor owner 0 } idx := by
  rw [answered, if_pos rfl]

/-- The loop over the owners, if they all answer with the same cursors. -/
def scan (next : ℕ → ℕ) : List String → ℕ → Side → Side
  | [], _, d => d
  | owner :: owners, idx, d =>
    scan next owners (idx + 1) (d.answered (next (d.cursor owner)) owner idx)

end Side

theorem removeScannedOwner_side (s : ClusterIterator) (kind : Kind) (idx : ℕ) :
    (s.removeScannedOwner kind idx).side kind = (s.side kind).removeAt idx := by
  unfold removeScannedOwner Side.removeAt
  by_cases listed : 0 < s.left kind ∧ idx < s.left kind
  · rw [if_pos listed, if_pos (show 0 < (s.side kind).left ∧ idx < (s.side kind).left from listed)]
    simp [setOwners, side]
    rfl
  · rw [if_neg listed,
      if_neg (show ¬ (0 < (s.side kind).left ∧ idx < (s.side kind).left) from listed)]

theorem removeScannedOwner_side_of_ne (s : ClusterIterator) {kind k : Kind} (ne : k ≠ kind)
    (idx : ℕ) : (s.removeScannedOwner kind idx).side k = s.side k := by
  unfold removeScannedOwner
  split_ifs
  · simp [setOwners, side, ne]
  · rfl

theorem foldl_addKey_side (keys : List Bytes) (s : ClusterIterator) :
    (keys.foldl addKey s).side = s.side := by
  induction keys generalizing s with
  | nil => rfl
  | cons key keys ih =>
    rw [List.foldl_cons, ih]
    unfold addKey
    split_ifs <;> rfl

theorem updateCursor_side (s : ClusterIterator) (kind : Kind) (owner : String) (cursor : ℕ) :
    (s.updateCursor kind owner cursor).side kind =
      { s.side kind with cursor := Function.update (s.side kind).cursor owner cursor } := by
  have cursors : (fun o => if s.partID = s.partID ∧ kind = kind ∧ o = owner then cursor
      else s.cursors s.partID kind o) = Function.update (s.cursors s.partID kind) owner cursor := by
    funext o
    simp [Function.update_apply]
  exact congrArg (Side.mk _ _ _ _ _) cursors

theorem updateCursor_side_of_ne (s : ClusterIterator) {kind k : Kind} (ne : k ≠ kind)
    (owner : String) (cursor : ℕ) : (s.updateCursor kind owner cursor).side k = s.side k := by
  simp [updateCursor, side, ne]

section

variable (quiet : ∀ n, w.fetched n = none)

include quiet

theorem fetchRoutingTable_side (s : ClusterIterator) :
    (s.fetchRoutingTable w).side = s.side := by
  rw [fetchRoutingTable, quiet]
  rfl

theorem answered_side (s : ClusterIterator) (kind : Kind) (keys : List Bytes) (newCursor : ℕ)
    (owner : String) (idx : ℕ) : (s.answered w kind keys newCursor owner idx).side kind =
      (s.side kind).answered newCursor owner idx := by
  have updated :
      ((s.countCall.updateIterator kind keys newCursor owner).fetchRoutingTable w).side kind =
        { s.side kind with cursor := Function.update (s.side kind).cursor owner newCursor } := by
    rw [fetchRoutingTable_side quiet, updateIterator, updateCursor_side, foldl_addKey_side]
    rfl
  unfold answered Side.answered
  dsimp only
  rw [← updated]
  split_ifs
  · exact removeScannedOwner_side _ kind idx
  · rfl

theorem answered_side_of_ne (s : ClusterIterator) {kind k : Kind} (ne : k ≠ kind)
    (keys : List Bytes) (newCursor : ℕ) (owner : String) (idx : ℕ) :
    (s.answered w kind keys newCursor owner idx).side k = s.side k := by
  have updated : ((s.countCall.updateIterator kind keys newCursor owner).fetchRoutingTable w).side
      k = s.side k := by
    rw [fetchRoutingTable_side quiet, updateIterator, updateCursor_side_of_ne _ ne,
      foldl_addKey_side]
    rfl
  rw [← updated]
  unfold answered
  dsimp only
  split_ifs
  · exact removeScannedOwner_side_of_ne _ ne idx
  · rfl

/-- Owners of another kind. -/
theorem scanLoop_side_of_ne {kind k : Kind} (ne : k ≠ kind) (owners : List String) (idx : ℕ)
    (s : ClusterIterator) : (scanLoop w config kind owners idx s).1.side k = s.side k := by
  induction owners generalizing idx s with
  | nil => rfl
  | cons owner owners ih =>
    rw [scanLoop]
    split
    · rfl
    · next items newCursor asked =>
      exact (ih (idx + 1) (s.answered w kind items newCursor owner idx)).trans
        (answered_side_of_ne quiet s ne items newCursor owner idx)

/-- Owners that answer alike. -/
theorem scanLoop_side (kind : Kind) {next : ℕ → ℕ} {partID : ℕ} (owners : List String)
    (alike : ∀ t, ∀ owner ∈ owners, ∀ cursor, ∃ items,
      w.ask config t kind partID owner cursor = some (items, next cursor))
    (idx : ℕ) (here : s.partID = partID) :
    (scanLoop w config kind owners idx s).1.side kind = (s.side kind).scan next owners idx := by
  induction owners generalizing idx s with
  | nil => rfl
  | cons owner owners ih =>
    obtain ⟨items, asked⟩ := alike s.calls owner List.mem_cons_self (s.loadCursor kind owner)
    have one := answered_side quiet s kind items (next (s.loadCursor kind owner)) owner idx
    have same : (s.answered w kind items (next (s.loadCursor kind owner)) owner idx).partID =
        partID := (congrArg Side.partID one).trans <|
      ((s.side kind).answered_partID _ owner idx).trans here
    have rest := ih (fun t o member => alike t o (List.mem_cons_of_mem owner member))
      (idx + 1) same
    rw [scanLoop, here, asked, Side.scan]
    rwa [one] at rest

end

theorem scanLoop_ok (usable : w.Usable config) (kind : Kind) (owners : List String) (idx : ℕ)
    (s : ClusterIterator) : (scanLoop w config kind owners idx s).2 = true := by
  induction owners generalizing idx s with
  | nil => rfl
  | cons owner owners ih =>
    obtain ⟨⟨items, newCursor⟩, asked⟩ := Option.isSome_iff_exists.1
      (usable.ask_isSome s.calls kind s.partID owner (s.loadCursor kind owner))
    rw [scanLoop, asked]
    exact ih (idx + 1) (s.answered w kind items newCursor owner idx)

theorem fetchData_ok (usable : w.Usable config) (s : ClusterIterator) :
    (s.fetchData w config).2 = true := by
  rw [fetchData]
  split_ifs
  · exact scanLoop_ok usable ..
  · exact scanLoop_ok usable ..

/-! ## The partitions before -/

/-- Within a partition the lists and the cursors of the other partitions do not change. -/
structure Within (s s' : ClusterIterator) : Prop where
  partID : s'.partID = s.partID
  table : ∀ p, p ≠ s.partID → s'.routingTable p = s.routingTable p
  cursors : ∀ p, p ≠ s.partID → s'.cursors p = s.cursors p

namespace Within

variable {s' s'' : ClusterIterator}

theorem refl (s : ClusterIterator) : Within s s := ⟨rfl, fun _ _ => rfl, fun _ _ => rfl⟩

theorem trans (h : Within s s') (h' : Within s' s'') : Within s s'' where
  partID := h'.partID.trans h.partID
  table p ne := (h'.table p (h.partID ▸ ne)).trans (h.table p ne)
  cursors p ne := (h'.cursors p (h.partID ▸ ne)).trans (h.cursors p ne)

theorem foldl_addKey (keys : List Bytes) (s : ClusterIterator) :
    Within s (keys.foldl addKey s) := by
  induction keys generalizing s with
  | nil => exact refl s
  | cons key keys ih =>
    refine .trans ?_ (ih (s.addKey key))
    unfold addKey
    split_ifs
    · exact refl s
    · exact ⟨rfl, fun _ _ => rfl, fun _ _ => rfl⟩

theorem updateCursor (s : ClusterIterator) (kind : Kind) (owner : String) (cursor : ℕ) :
    Within s (s.updateCursor kind owner cursor) where
  partID := rfl
  table _ _ := rfl
  cursors p ne := by
    funext k o
    exact if_neg fun same => ne same.1

theorem removeScannedOwner (s : ClusterIterator) (kind : Kind) (idx : ℕ) :
    Within s (s.removeScannedOwner kind idx) := by
  unfold ClusterIterator.removeScannedOwner
  split_ifs
  · refine ⟨rfl, fun p ne => ?_, fun _ _ => rfl⟩
    funext k
    exact if_neg fun same => ne same.2.1
  · exact refl s

section

variable (quiet : ∀ n, w.fetched n = none)

include quiet

theorem fetchRoutingTable (s : ClusterIterator) : Within s (s.fetchRoutingTable w) := by
  rw [ClusterIterator.fetchRoutingTable, quiet]
  exact ⟨rfl, fun _ _ => rfl, fun _ _ => rfl⟩

theorem answered (s : ClusterIterator) (kind : Kind) (keys : List Bytes) (newCursor : ℕ)
    (owner : String) (idx : ℕ) : Within s (s.answered w kind keys newCursor owner idx) := by
  have counted : Within s s.countCall := ⟨rfl, fun _ _ => rfl, fun _ _ => rfl⟩
  have updated := ((counted.trans (foldl_addKey keys _)).trans
    (updateCursor _ kind owner newCursor)).trans (fetchRoutingTable quiet _)
  unfold ClusterIterator.answered
  dsimp only
  split_ifs
  · exact updated.trans (removeScannedOwner _ kind idx)
  · exact updated

theorem scanLoop (kind : Kind) (owners : List String) (idx : ℕ) (s : ClusterIterator) :
    Within s (scanLoop w config kind owners idx s).1 := by
  induction owners generalizing idx s with
  | nil => exact refl s
  | cons owner owners ih =>
    rw [ClusterIterator.scanLoop]
    split
    · exact ⟨rfl, fun _ _ => rfl, fun _ _ => rfl⟩
    · next items newCursor asked =>
      exact (answered quiet s kind items newCursor owner idx).trans (ih (idx + 1) _)

theorem fetchData (s : ClusterIterator) : Within s (s.fetchData w config).1 := by
  have scan (kind : Kind) (s : ClusterIterator) : Within s (s.scanOnOwners w config kind).1 :=
    (fetchRoutingTable quiet s).trans (scanLoop quiet kind _ 0 _)
  unfold ClusterIterator.fetchData
  dsimp only
  split_ifs
  · exact (scan .primary s).trans (scan .replica _)
  · exact scan .primary s

theorem fetchLoop {fuel : ℕ} {r : ClusterIterator × Bool}
    (h : fetchLoop w config fuel s = some r) : Within s r.1 := by
  induction fuel generalizing s with
  | zero => cases h
  | succ fuel ih =>
    have round : Within s (s.fetchData w config).1 := fetchData quiet s
    rw [ClusterIterator.fetchLoop] at h
    split_ifs at h
    · exact Option.some.inj h ▸ round
    · exact Option.some.inj h ▸ round
    · exact Option.some.inj h ▸ round
    · exact round.trans (ih h)

end

end Within

theorem fetchLoop_ok (usable : w.Usable config) {fuel : ℕ} {r : ClusterIterator × Bool}
    (h : fetchLoop w config fuel s = some r) : r.2 = true := by
  induction fuel generalizing s with
  | zero => cases h
  | succ fuel ih =>
    have ok := fetchData_ok usable s
    rw [ClusterIterator.fetchLoop] at h
    split_ifs at h with failed
    · exact absurd (ok.symm.trans failed) (by decide)
    · exact Option.some.inj h ▸ ok
    · exact Option.some.inj h ▸ ok
    · exact ih h

/-- The iterator has not come to the partition yet, whose replica owners are there as at the
start. -/
structure Ahead (a b : String) (partID : ℕ) (s : ClusterIterator) : Prop where
  before : s.partID < partID
  table : s.routingTable partID .replica = [a, b]
  cursors : ∀ owner, s.cursors partID .replica owner = 0

theorem Ahead.within {a b : String} {partID : ℕ} {s' : ClusterIterator}
    (h : Ahead a b partID s) (within : Within s s') : Ahead a b partID s' where
  before := within.partID.trans_lt h.before
  table := by rw [within.table partID h.before.ne', h.table]
  cursors owner := by rw [within.cursors partID h.before.ne', h.cursors owner]

/-! ## Two owners

A round over `[a, b]`, and after `a` is scanned over `[b, b]`. -/

section

variable {a b : String} {partID : ℕ} {next : ℕ → ℕ} {half : ℕ}

/-- The two owners are at the same cursor until both are scanned; from then on there are two
commands to `b` in each round, and the second one is the one that comes to the end. -/
structure Hangs (a b : String) (partID : ℕ) (next : ℕ → ℕ) (half : ℕ) (d : Side) : Prop where
  partID : d.partID = partID
  shared : d.shared = true
  table : d.table = d.array
  owners : (d.array = [a, b] ∧ d.left = 2 ∧
      ∃ n < 2 * half, d.cursor a = next^[n] 0 ∧ d.cursor b = next^[n] 0) ∨
    (d.array = [b, b] ∧ d.left = 1 ∧ ∃ n < half, d.cursor b = next^[2 * n] 0)

theorem Hangs.left_ne {d : Side} (h : Hangs a b partID next half d) : d.left ≠ 0 := by
  rcases h.owners with ⟨-, left, -⟩ | ⟨-, left, -⟩ <;> omega

variable (distinct : a ≠ b) (ends : next^[2 * half] 0 = 0)
  (before : ∀ n, 0 < n → n < 2 * half → next^[n] 0 ≠ 0)

include distinct ends before

theorem Hangs.scan {d : Side} (h : Hangs a b partID next half d) :
    Hangs a b partID next half (d.scan next d.table 0) := by
  obtain ⟨part, array, left, shared, table, cursor⟩ := d
  obtain ⟨hpart, hshared, htable, owners⟩ := h
  dsimp only at hpart hshared htable owners
  subst hpart hshared htable
  have step n : next (next^[n] 0) = next^[n + 1] 0 := (Function.iterate_succ_apply' next n 0).symm
  rcases owners with ⟨rfl, rfl, n, lt, ca, cb⟩ | ⟨rfl, rfl, n, lt, cb⟩
  · simp only [Side.scan, ca, step]
    by_cases last : n + 1 = 2 * half
    · -- `a` is taken out, and then the index of `b` is behind the list
      rw [last, ends, Side.answered_last]
      have other : Function.update cursor a 0 b = next^[n] 0 := by
        rw [Function.update_of_ne distinct.symm, cb]
      simp only [Side.removeAt, ClusterIterator.removeAt, Side.answered, Nat.zero_add,
        Nat.succ_pos, and_self, if_true, other, step, last, ends]
      refine ⟨rfl, rfl, rfl, .inr ⟨rfl, rfl, 0, by omega, ?_⟩⟩
      simp
    · have more : next^[n + 1] 0 ≠ 0 := before (n + 1) (by omega) (by omega)
      have other : Function.update cursor a (next^[n + 1] 0) b = next^[n] 0 := by
        rw [Function.update_of_ne distinct.symm, cb]
      rw [Side.answered_more _ more]
      dsimp only
      rw [other, step, Side.answered_more _ more]
      refine ⟨rfl, rfl, rfl, .inl ⟨rfl, rfl, n + 1, by omega, ?_, ?_⟩⟩
      · simp [Function.update_of_ne distinct]
      · simp
  · simp only [Side.scan, cb, step]
    have more : next^[2 * n + 1] 0 ≠ 0 := before (2 * n + 1) (by omega) (by omega)
    rw [Side.answered_more _ more]
    dsimp only
    rw [Function.update_self, step]
    by_cases last : n + 1 = half
    · -- the second command to `b` comes to the end, and its index is behind the list
      rw [show 2 * n + 1 + 1 = 2 * half by omega, ends, Side.answered_last]
      refine ⟨rfl, rfl, rfl, .inr ⟨rfl, rfl, 0, by omega, ?_⟩⟩
      simp [Side.removeAt]
    · rw [Side.answered_more _ (before (2 * n + 1 + 1) (by omega) (by omega))]
      exact ⟨rfl, rfl, rfl, .inr ⟨rfl, rfl, n + 1, by omega, Function.update_self ..⟩⟩

end

section

variable {a b : String} {partID : ℕ} {next : ℕ → ℕ} {half : ℕ} (quiet : ∀ n, w.fetched n = none)
  (usable : w.Usable config) (distinct : a ≠ b)
  (alike : ∀ t, ∀ owner, owner = a ∨ owner = b → ∀ cursor, ∃ items,
    w.ask config t .replica partID owner cursor = some (items, next cursor))
  (ends : next^[2 * half] 0 = 0) (before : ∀ n, 0 < n → n < 2 * half → next^[n] 0 ≠ 0)

include quiet in

/-- Another partition before it. -/
theorem loadRoute_ahead (h : Ahead a b partID s) : Ahead a b partID (s.loadRoute w) := by
  rw [loadRoute, fetchRoutingTable, quiet]
  exact ⟨h.before, h.table, h.cursors⟩

include quiet in

/-- The iterator comes to the partition. -/
theorem loadRoute_hangs (positive : 0 < half) (here : s.partID = partID)
    (table : s.routingTable partID .replica = [a, b])
    (cursors : ∀ owner, s.cursors partID .replica owner = 0) :
    Hangs a b partID next half ((s.loadRoute w).side .replica) := by
  subst here
  rw [loadRoute, fetchRoutingTable, quiet]
  refine ⟨rfl, rfl, rfl, .inl ⟨table, ?_, 0, by omega, cursors a, cursors b⟩⟩
  exact congrArg List.length table

include quiet usable distinct alike ends before

theorem fetchData_hangs (h : Hangs a b partID next half (s.side .replica)) :
    Hangs a b partID next half ((s.fetchData w config).1.side .replica) := by
  have first : (scanLoop w config .primary ((s.fetchRoutingTable w).getOwners .primary) 0
      (s.fetchRoutingTable w)).1.side .replica = (s.fetchRoutingTable w).side .replica :=
    scanLoop_side_of_ne quiet (by decide) _ 0 _
  have ok := scanLoop_ok usable .primary ((s.fetchRoutingTable w).getOwners .primary) 0
    (s.fetchRoutingTable w)
  rw [fetchRoutingTable_side quiet] at first
  rw [fetchData, scanOnOwners, if_pos ok, scanOnOwners]
  generalize (scanLoop w config .primary ((s.fetchRoutingTable w).getOwners .primary) 0
    (s.fetchRoutingTable w)).1 = r at first
  have same : (r.fetchRoutingTable w).side .replica = s.side .replica := by
    rw [fetchRoutingTable_side quiet, first]
  have owners : (r.fetchRoutingTable w).getOwners .replica = (s.side .replica).table :=
    congrArg Side.table same
  have members : ∀ owner ∈ (s.side .replica).table, owner = a ∨ owner = b := by
    rw [h.table]
    rcases h.owners with ⟨is, -⟩ | ⟨is, -⟩ <;> simp [is]
  have scanned := scanLoop_side (s := r.fetchRoutingTable w) quiet .replica
    (s.side .replica).table (fun t owner member => alike t owner (members owner member)) 0
    ((congrArg Side.partID same).trans h.partID)
  rw [owners, scanned, same]
  exact h.scan distinct ends before

theorem fetchLoop_hangs (fuel : ℕ) (h : Hangs a b partID next half (s.side .replica)) :
    fetchLoop w config fuel s = none ∨ ∃ s', fetchLoop w config fuel s = some (s', true) ∧
      Hangs a b partID next half (s'.side .replica) := by
  induction fuel generalizing s with
  | zero => exact .inl rfl
  | succ fuel ih =>
    have hangs := fetchData_hangs quiet usable distinct alike ends before h
    have ok := fetchData_ok usable s
    have left : ¬ (s.fetchData w config).1.Scanned := fun scanned => hangs.left_ne scanned.2
    rw [fetchLoop, if_neg (by rw [ok]; decide)]
    split_ifs
    · exact .inr ⟨_, by rw [← ok], hangs⟩
    · exact ih hangs

theorem next_hangs (fuel : ℕ) (h : Hangs a b partID next half (s.side .replica)) :
    ClusterIterator.next w config fuel s = none ∨
      ∃ s', ClusterIterator.next w config fuel s = some (s', true) ∧
        Hangs a b partID next half (s'.side .replica) := by
  cases fuel with
  | zero => exact .inl rfl
  | succ fuel =>
    rw [ClusterIterator.next]
    split_ifs
    · exact .inr ⟨_, rfl, h⟩
    · rcases fetchLoop_hangs quiet usable distinct alike ends before (s := s.resetPage) fuel h with
        spins | ⟨s', fetched, hangs⟩
      · exact .inl (by rw [spins]; rfl)
      · rw [fetched]
        have left : ¬ (s'.page = [] ∧ s'.Scanned) := fun finished => hangs.left_ne finished.2.2
        exact .inr ⟨s'.setPos 1, by simp [left], hangs⟩

/-- Before the partition `Next` brings a key or does not return; it may come to the partition. -/
theorem next_ahead (positive : 0 < half) (within : partID < w.partitionCount) (fuel : ℕ)
    (h : Ahead a b partID s) :
    ClusterIterator.next w config fuel s = none ∨
      ∃ s', ClusterIterator.next w config fuel s = some (s', true) ∧
        (Ahead a b partID s' ∨ Hangs a b partID next half (s'.side .replica)) := by
  have turned {s' : ClusterIterator} (pos : ℕ) (h' : Ahead a b partID s') :
      Ahead a b partID (s'.setPos pos) := ⟨h'.before, h'.table, h'.cursors⟩
  induction fuel generalizing s with
  | zero => exact .inl rfl
  | succ fuel ih =>
    rw [ClusterIterator.next]
    split_ifs with readable
    · exact .inr ⟨_, rfl, .inl (turned _ h)⟩
    cases looped : fetchLoop w config fuel s.resetPage with
    | none => exact .inl rfl
    | some r =>
      obtain ⟨s', ok⟩ := r
      obtain rfl : ok = true := fetchLoop_ok usable looped
      have blank : Ahead a b partID s.resetPage := ⟨h.before, h.table, h.cursors⟩
      have ahead : Ahead a b partID s' := blank.within (.fetchLoop quiet looped)
      have following : s'.nextPartition.partID = s'.partID + 1 := rfl
      simp only [Option.bind_some, Bool.true_eq_false, if_false]
      split_ifs with finished last
      · have := ahead.before
        omega
      · rcases Nat.lt_or_eq_of_le (Nat.succ_le_of_lt ahead.before) with short | here
        · exact ih (loadRoute_ahead quiet ⟨short, ahead.table, ahead.cursors⟩)
        · have hangs : Hangs a b partID next half ((s'.nextPartition.reset w).side .replica) :=
            loadRoute_hangs quiet positive here ahead.table ahead.cursors
          refine (next_hangs quiet usable distinct alike ends before fuel hangs).imp_right ?_
          rintro ⟨s'', called, still⟩
          exact ⟨s'', called, .inr still⟩
      · exact .inr ⟨_, rfl, .inl (turned _ ahead)⟩

theorem drain_hangs (positive : 0 < half) (within : partID < w.partitionCount) (fuel : ℕ)
    (h : Ahead a b partID s ∨ Hangs a b partID next half (s.side .replica)) :
    drain w config fuel s = none := by
  induction fuel generalizing s with
  | zero => rfl
  | succ fuel ih =>
    have called : ClusterIterator.next w config fuel s = none ∨
        ∃ s', ClusterIterator.next w config fuel s = some (s', true) ∧
          (Ahead a b partID s' ∨ Hangs a b partID next half (s'.side .replica)) := by
      rcases h with ahead | hangs
      · exact next_ahead quiet usable distinct alike ends before positive within fuel ahead
      · refine (next_hangs quiet usable distinct alike ends before fuel hangs).imp_right ?_
        rintro ⟨s', called, still⟩
        exact ⟨s', called, .inr still⟩
    rw [drain]
    rcases called with spins | ⟨s', called, still⟩
    · rw [spins, Option.bind_none]
    · rw [called, Option.bind_some, if_pos rfl, ih still, Option.map_none]

end

/-- A partition with two replica owners that answer with the same cursors, the last of them zero
after an even number of commands: the iteration does not end before the routing table is fetched
again. -/
theorem scan_hangs {w : Cluster} {config : ScanConfig} (usable : w.Usable config.prepare)
    (quiet : ∀ n, w.fetched n = none) {part : ℕ} (within : part < w.partitionCount)
    {a b : String} (owners : w.routingTable part .replica = [a, b]) (distinct : a ≠ b)
    (next : ℕ → ℕ)
    (alike : ∀ t, ∀ owner, owner = a ∨ owner = b → ∀ cursor, ∃ items,
      w.ask config.prepare t .replica part owner cursor = some (items, next cursor))
    {half : ℕ} (positive : 0 < half) (ends : next^[2 * half] 0 = 0)
    (before : ∀ n, 0 < n → n < 2 * half → next^[n] 0 ≠ 0) (fuel : ℕ) :
    drain w config.prepare fuel (start w) = none := by
  refine drain_hangs quiet usable distinct alike ends before positive within fuel ?_
  rcases Nat.eq_zero_or_pos part with rfl | later
  · exact .inr (loadRoute_hangs quiet positive rfl owners fun _ => rfl)
  · exact .inl (loadRoute_ahead quiet ⟨later, owners, fun _ => rfl⟩)

/-- Two replicas of the second partition with two entries each, one of them in an answer. -/
def threeCopies : Cluster where
  partitionCount := 2
  routingTable := fun p kind => if kind = .primary then ["a"] else if p = 1 then ["b", "c"] else []
  fetched := fun _ => none
  this := none
  compile := fun _ => some fun _ => true
  compile_nil := fun _ h _ => Option.some.inj h ▸ rfl
  reachable := fun _ _ => true
  fragment := fun _ _ _ _ =>
    some ((Engine.put .empty 4 ⟨[1], [], 0, 0, 0⟩).put 7 ⟨[2], [], 0, 0, 0⟩)

theorem scan_hangs_two :
    drain threeCopies (ScanConfig.prepare ⟨true, 1, false, []⟩) 1000 (start threeCopies) = none :=
  scan_hangs ⟨fun _ _ => rfl, fun matching => absurd matching (by decide)⟩ (fun _ => rfl)
    (show 1 < 2 by decide) rfl (show "b" ≠ "c" by decide)
    (fun cursor => (Engine.scan none Engine.collect
      ((Engine.put .empty 4 ⟨[1], [], 0, 0, 0⟩).put 7 ⟨[2], [], 0, 0, 0⟩) cursor 1 []).cursor)
    (fun _ _ _ cursor => ⟨_, rfl⟩) Nat.one_pos (by decide +kernel)
    (fun n pos lt => by
      obtain rfl : n = 1 := by omega
      decide +kernel) 1000

end OlricStack.Dmap.ClusterIterator
