import OlricStack.Node.Scan

/-!
# Iterating over a DMap

`ClusterIterator`: `Next` reads a partition page by page.  A page is what one round of `Scan`
commands to the owners of the partition and then to the owners of its replicas brings; a key that
was already read in the partition is left out.  The lists of the owners that are not finished are
slices of the routing table's own arrays, so that taking an owner out of one also moves the owners
in the list that the next round goes over, until the routing table is fetched again.

The fragments may change from command to command.  Whatever the owners are, a caller reads no key
twice and only keys that were there (`drain_pending`).
-/

namespace OlricStack.Dmap

open Node

/-- The two lists of owners of a partition. -/
inductive Kind
  | primary
  | replica
deriving DecidableEq

/-- `dmap.ScanConfig`; `Replica` is the kind of the owners that are asked. -/
structure ScanConfig where
  hasCount : Bool
  count : ℤ
  hasMatch : Bool
  matchPattern : Bytes

/-- `DefaultScanCount`. -/
def defaultScanCount : ℤ := 10

/-- What `ClusterDMap.Scan` makes of the options. -/
def ScanConfig.prepare (config : ScanConfig) : ScanConfig :=
  if config.count = 0 then { config with count := defaultScanCount } else config

/-- The owners of each partition. -/
abbrev RoutingTable := ℕ → Kind → List String

/-- The cluster around an iteration.  The connections and the fragments are as the `t`-th command
finds them; `fetched` has the routing tables that `fetchRoutingTablePeriodically` brings in
between.  `this` is the node of an `EmbeddedIterator`. -/
structure Cluster where
  partitionCount : ℕ
  routingTable : RoutingTable
  fetched : ℕ → Option RoutingTable
  this : Option String
  compile : Bytes → Option Regexp
  /-- an empty expression matches everything -/
  compile_nil : ∀ re, compile [] = some re → ∀ key, re key = true
  reachable : ℕ → String → Bool
  fragment : ℕ → Kind → ℕ → String → Option Engine

/-- `DMap.Scan`. -/
def dmapScan (compile : Bytes → Option Regexp) (fragment : Option Engine) (cursor : ℕ)
    (pattern : Option Bytes) (count : ℤ) : Option (List Bytes × ℕ) :=
  match fragment with
  | none => some ([], 0)
  | some m => m.scanOnFragment compile cursor pattern count

namespace Cluster

variable (w : Cluster) (config : ScanConfig)

/-- The call of `DMap.Scan` in `EmbeddedIterator.scanOnOwners`. -/
def scanHere (t : ℕ) (kind : Kind) (partID : ℕ) (owner : String) (cursor : ℕ) :
    Option (List Bytes × ℕ) :=
  dmapScan w.compile (w.fragment t kind partID owner) cursor
    (if config.hasMatch then some config.matchPattern else none) config.count

/-- The scan command, its parser and its handler. -/
def scanThere (t : ℕ) (kind : Kind) (partID : ℕ) (owner : String) (cursor : ℕ) :
    Option (List Bytes × ℕ) :=
  if w.reachable t owner then
    -- an empty pattern and a count of zero are not sent
    let pattern := if config.hasMatch then config.matchPattern else []
    let count := if config.hasCount then config.count else 0
    dmapScan w.compile (w.fragment t kind partID owner) cursor
      (if pattern ≠ [] then some pattern else none) (if count = 0 then defaultScanCount else count)
  else none

/-- A scan command to an owner: what it answers at the time `t`, and the next cursor. -/
def ask (t : ℕ) (kind : Kind) (partID : ℕ) (owner : String) (cursor : ℕ) :
    Option (List Bytes × ℕ) :=
  if w.this = some owner then w.scanHere config t kind partID owner cursor
  else w.scanThere config t kind partID owner cursor

end Cluster

/-- `ClusterIterator`.  A list of owners in `route` has the first `left` elements of an array; while
it is `shared` it is the array of the list in `routingTable`. -/
structure ClusterIterator where
  pos : ℕ
  page : List Bytes
  array : Kind → List String
  left : Kind → ℕ
  shared : Bool
  partitionKeys : List Bytes
  cursors : ℕ → Kind → String → ℕ
  partID : ℕ
  routingTable : RoutingTable
  /-- the number of commands so far -/
  calls : ℕ
  /-- the number of points so far at which a new routing table could come in -/
  ticks : ℕ

namespace ClusterIterator

/-- `loadCursor`. -/
def loadCursor (s : ClusterIterator) (kind : Kind) (owner : String) : ℕ :=
  s.cursors s.partID kind owner

/-- `updateCursor`. -/
def updateCursor (s : ClusterIterator) (kind : Kind) (owner : String) (cursor : ℕ) :
    ClusterIterator :=
  { s with cursors := fun p k o =>
      if p = s.partID ∧ k = kind ∧ o = owner then cursor else s.cursors p k o }

/-- A key that the partition has not brought before goes to the page. -/
def addKey (s : ClusterIterator) (key : Bytes) : ClusterIterator :=
  if key ∈ s.partitionKeys then s
  else { s with page := s.page ++ [key], partitionKeys := s.partitionKeys ++ [key] }

/-- `updateIterator`. -/
def updateIterator (s : ClusterIterator) (kind : Kind) (keys : List Bytes) (cursor : ℕ)
    (owner : String) : ClusterIterator :=
  (keys.foldl addKey s).updateCursor kind owner cursor

/-- `getOwners`. -/
def getOwners (s : ClusterIterator) (kind : Kind) : List String := s.routingTable s.partID kind

/-- `append(owners[:idx], owners[idx+1:]...)` on the first `left` elements of an array: the elements
behind `idx` move, and the last one of them stays where it was too. -/
def removeAt (array : List String) (left idx : ℕ) : List String :=
  (array.take left).eraseIdx idx ++ array.drop (left - 1)

/-- The list of `route` gets the first `left` elements of the array. -/
def setOwners (s : ClusterIterator) (kind : Kind) (array : List String) (left : ℕ) :
    ClusterIterator :=
  { s with
    array := fun k => if k = kind then array else s.array k
    left := fun k => if k = kind then left else s.left k
    routingTable := fun p k =>
      if s.shared ∧ p = s.partID ∧ k = kind then array else s.routingTable p k }

/-- `removeScannedOwner`. -/
def removeScannedOwner (s : ClusterIterator) (kind : Kind) (idx : ℕ) : ClusterIterator :=
  if 0 < s.left kind ∧ idx < s.left kind then
    s.setOwners kind (removeAt (s.array kind) (s.left kind) idx) (s.left kind - 1)
  else s

/-- One more command was sent. -/
def countCall (s : ClusterIterator) : ClusterIterator := { s with calls := s.calls + 1 }

section

variable (w : Cluster) (config : ScanConfig)

/-- A point at which a new routing table can come in. -/
def fetchRoutingTable (s : ClusterIterator) : ClusterIterator :=
  match w.fetched s.ticks with
  | none => { s with ticks := s.ticks + 1 }
  | some table => { s with routingTable := table, shared := false, ticks := s.ticks + 1 }

/-- The loop of `scanOnOwners` from the index `idx` on; the second component is whether there was no
error. -/
def scanLoop (kind : Kind) : List String → ℕ → ClusterIterator → ClusterIterator × Bool
  | [], _, s => (s, true)
  | owner :: owners, idx, s =>
    match w.ask config s.calls kind s.partID owner (s.loadCursor kind owner) with
    | none => (s.countCall, false)
    | some (keys, newCursor) =>
      let s := (s.countCall.updateIterator kind keys newCursor owner).fetchRoutingTable w
      scanLoop kind owners (idx + 1) (if newCursor = 0 then s.removeScannedOwner kind idx else s)

/-- `scanOnOwners`, which ranges over the list that it has read at its start. -/
def scanOnOwners (s : ClusterIterator) (kind : Kind) : ClusterIterator × Bool :=
  let s := s.fetchRoutingTable w
  scanLoop w config kind (s.getOwners kind) 0 s

/-- `fetchData`. -/
def fetchData (s : ClusterIterator) : ClusterIterator × Bool :=
  let r := s.scanOnOwners w config .primary
  if r.2 then r.1.scanOnOwners w config .replica else r

/-- A new page. -/
def resetPage (s : ClusterIterator) : ClusterIterator := { s with page := [], pos := 0 }

/-- `loadRoute`, which takes the list of the routing table and not a copy. -/
def loadRoute (s : ClusterIterator) : ClusterIterator :=
  let s := s.fetchRoutingTable w
  { s with
    array := s.routingTable s.partID
    left := fun kind => (s.routingTable s.partID kind).length
    shared := true }

/-- `reset`, for the next partition. -/
def reset (s : ClusterIterator) : ClusterIterator :=
  { s.resetPage with partitionKeys := [] }.loadRoute w

/-- All owners of the partition are scanned. -/
def Scanned (s : ClusterIterator) : Prop := s.left .primary = 0 ∧ s.left .replica = 0

instance (s : ClusterIterator) : Decidable s.Scanned := inferInstanceAs (Decidable (_ ∧ _))

/-- The loop of `next`. -/
def fetchLoop : ℕ → ClusterIterator → Option (ClusterIterator × Bool)
  | 0, _ => none
  | fuel + 1, s =>
    let r := s.fetchData w config
    if r.2 = false then some r
    else if r.1.page ≠ [] then some r
    else if r.1.Scanned then some r
    else fetchLoop fuel r.1

/-- The position in the page. -/
def setPos (s : ClusterIterator) (pos : ℕ) : ClusterIterator := { s with pos := pos }

/-- The next partition. -/
def nextPartition (s : ClusterIterator) : ClusterIterator := { s with partID := s.partID + 1 }

/-- There is a key behind `pos` on the page. -/
def Readable (s : ClusterIterator) : Prop := s.page ≠ [] ∧ s.pos + 1 ≤ s.page.length

instance (s : ClusterIterator) : Decidable s.Readable := inferInstanceAs (Decidable (_ ∧ _))

/-- `next`; `none` is that it has not returned. -/
def next : ℕ → ClusterIterator → Option (ClusterIterator × Bool)
  | 0, _ => none
  | fuel + 1, s =>
    if s.Readable then some (s.setPos (s.pos + 1), true)
    else
      (fetchLoop w config fuel s.resetPage).bind fun r =>
        if r.2 = false then some r
        else if r.1.page = [] ∧ r.1.Scanned then
          if r.1.nextPartition.partID ≥ w.partitionCount then some (r.1.nextPartition, false)
          else next fuel (r.1.nextPartition.reset w)
        else some (r.1.setPos 1, true)

/-- `Key`. -/
def key (s : ClusterIterator) : Bytes :=
  if 0 < s.pos ∧ s.pos ≤ s.page.length then s.page.getD (s.pos - 1) [] else []

/-- The keys that a caller reads while `Next` answers true. -/
def drain : ℕ → ClusterIterator → Option (List Bytes)
  | 0, _ => none
  | fuel + 1, s =>
    (next w config fuel s).bind fun r =>
      if r.2 then (drain fuel r.1).map (r.1.key :: ·) else some []

/-- The iterator that `ClusterDMap.Scan` returns. -/
def start : ClusterIterator :=
  loadRoute w ⟨0, [], fun _ => [], fun _ => 0, false, [], fun _ _ _ => 0, 0, w.routingTable, 0, 0⟩

end

end ClusterIterator

/-! ## One command -/

/-- What an owner answers to a command: matching keys of its fragment, all those between the cursor
and the new one, which moves on. -/
structure Answer (re : Option Regexp) (fragment : Option Engine) (cursor : ℕ) (items : List Bytes)
    (newCursor : ℕ) : Prop where
  sound : ∀ key ∈ items, ∃ m, fragment = some m ∧
    ∃ slot ∈ m.toList, slot.matches re = true ∧ slot.entry.key = key
  complete : ∀ m, fragment = some m → ∀ slot ∈ m.toList, slot.matches re = true →
    cursor ≤ slot.hkey → newCursor = 0 ∨ slot.hkey < newCursor → slot.entry.key ∈ items
  more : newCursor ≠ 0 → cursor < newCursor ∧ ∃ m, fragment = some m ∧
    ∃ slot ∈ m.toList, slot.hkey = newCursor

theorem Answer.congr {re re' : Option Regexp} {fragment : Option Engine} {cursor : ℕ}
    {items : List Bytes} {newCursor : ℕ} (h : Answer re fragment cursor items newCursor)
    (same : ∀ slot : Slot, slot.matches re = slot.matches re') :
    Answer re' fragment cursor items newCursor where
  sound key member := by simpa only [same] using h.sound key member
  complete m is slot member matching := h.complete m is slot member ((same slot).trans matching)
  more := h.more

section

variable {σ : Type*} (re : Option Regexp) (f : σ → MemEntry → σ × Bool)

/-- A count that is not positive is the number of entries. -/
theorem scan_count (m : Engine) (cursor : ℕ) (count : ℤ) (s : σ) :
    ∃ n : ℕ, 1 ≤ n ∧ m.scan re f cursor count s = m.scan re f cursor n s := by
  by_cases all : count ≤ 0
  · cases slots : m.slotsFrom cursor with
    | nil => exact ⟨1, le_rfl, by simp [Engine.scan, slots, Engine.scanLoop]⟩
    | cons slot rest =>
      refine ⟨rest.length + 1, by omega, ?_⟩
      have positive : ¬ ((rest.length + 1 : ℕ) : ℤ) ≤ 0 := by omega
      simp only [Engine.scan, slots, if_pos all, if_neg positive, List.length_cons]
  · obtain ⟨n, rfl⟩ := Int.eq_ofNat_of_zero_le (show 0 ≤ count by omega)
    exact ⟨n, by omega, rfl⟩

/-- The new cursor is the hash of an entry. -/
theorem scan_cursor_mem {f : σ → MemEntry → σ × Bool} (always : ∀ s e, (f s e).2 = true)
    (m : Engine) (cursor : ℕ) {n : ℕ} (positive : 1 ≤ n) (s : σ)
    (more : (m.scan re f cursor n s).cursor ≠ 0) :
    ∃ slot ∈ m.toList, slot.hkey = (m.scan re f cursor n s).cursor := by
  have counted : (if (n : ℤ) ≤ 0 then ((m.slotsFrom cursor).length : ℤ) else n) = n :=
    if_neg (by omega)
  simp only [Engine.scan, counted] at more ⊢
  obtain ⟨passed, rest, split, -, next, -⟩ :=
    @Engine.scanLoop_spec σ re f always n (m.slotsFrom cursor) 0 (by omega) s
  cases rest with
  | nil => exact absurd next more
  | cons first rest =>
    have member : first ∈ m.slotsFrom cursor := by simp [split]
    exact ⟨first, (Engine.mem_slotsFrom.1 member).1, next.symm⟩

end

theorem dmapScan_answer {compile : Bytes → Option Regexp} {fragment : Option Engine} {cursor : ℕ}
    {pattern : Option Bytes} {count : ℤ} {items : List Bytes} {newCursor : ℕ}
    (h : dmapScan compile fragment cursor pattern count = some (items, newCursor)) :
    Answer (pattern.bind compile) fragment cursor items newCursor := by
  cases fragment with
  | none =>
    cases h
    exact ⟨nofun, nofun, fun more => absurd rfl more⟩
  | some m =>
    obtain ⟨rfl, rfl⟩ := Engine.scanOnFragment_keys h
    obtain ⟨n, positive, same⟩ :=
      scan_count (pattern.bind compile) Engine.collect m cursor count []
    rw [same]
    have always : ∀ items e, (Engine.collect items e).2 = true := fun _ _ => rfl
    have spec := @Engine.scan_spec _ (pattern.bind compile) _ always n positive m cursor []
    refine ⟨fun key member => ?_, fun m' is slot member matching le reached => ?_, fun more => ?_⟩
    · obtain ⟨slot, sent, rfl⟩ := List.mem_map.1 member
      obtain ⟨known, matching, -⟩ := spec.sound slot sent
      exact ⟨m, rfl, slot, known, matching, rfl⟩
    · cases is
      exact List.mem_map_of_mem (spec.complete slot member matching le reached)
    · exact ⟨spec.lt positive more, m, rfl, scan_cursor_mem _ always m cursor positive [] more⟩

namespace Cluster

variable {w : Cluster} {config : ScanConfig}

/-- The compiled pattern, if there is one. -/
def regexp (w : Cluster) (config : ScanConfig) : Option Regexp :=
  if config.hasMatch then w.compile config.matchPattern else none

theorem ask_answer {t : ℕ} {kind : Kind} {partID : ℕ} {owner : String} {cursor : ℕ}
    {items : List Bytes} {newCursor : ℕ}
    (h : w.ask config t kind partID owner cursor = some (items, newCursor)) :
    Answer (w.regexp config) (w.fragment t kind partID owner) cursor items newCursor := by
  unfold ask at h
  split_ifs at h with here
  · refine (dmapScan_answer h).congr fun slot => ?_
    cases matching : config.hasMatch <;> simp [regexp, matching]
  · have reached : w.reachable t owner = true := by
      by_contra lost
      simp [scanThere, lost] at h
    rw [scanThere, if_pos reached] at h
    refine (dmapScan_answer h).congr fun slot => ?_
    cases matching : config.hasMatch with
    | false => simp [regexp, matching]
    | true =>
      -- an empty pattern was not sent
      by_cases empty : config.matchPattern = []
      · simp only [regexp, matching, empty, if_true, ne_eq, not_true_eq_false, if_false]
        cases compiled : w.compile [] with
        | none => rfl
        | some re => simp [Slot.matches, w.compile_nil re compiled]
      · simp [regexp, matching, empty]

/-- Every owner answers. -/
structure Usable (w : Cluster) (config : ScanConfig) : Prop where
  reachable : ∀ t owner, w.reachable t owner = true
  compiles : config.hasMatch = true → (w.compile config.matchPattern).isSome = true

theorem dmapScan_isSome {compile : Bytes → Option Regexp} {pattern : Option Bytes}
    (compiles : ∀ p, pattern = some p → (compile p).isSome = true) (fragment : Option Engine)
    (cursor : ℕ) (count : ℤ) : (dmapScan compile fragment cursor pattern count).isSome = true := by
  cases fragment with
  | none => rfl
  | some m =>
    cases pattern with
    | none => rfl
    | some pattern =>
      simp [dmapScan, Engine.scanOnFragment, Engine.scanRegexMatch, compiles pattern rfl]

theorem Usable.ask_isSome (usable : w.Usable config) (t : ℕ) (kind : Kind) (partID : ℕ)
    (owner : String) (cursor : ℕ) :
    (w.ask config t kind partID owner cursor).isSome = true := by
  unfold ask
  split_ifs
  · refine dmapScan_isSome (fun p is => ?_) _ _ _
    split_ifs at is with matching
    cases is
    exact usable.compiles matching
  · unfold scanThere
    rw [if_pos (usable.reachable t owner)]
    refine dmapScan_isSome (fun p is => ?_) _ _ _
    cases matching : config.hasMatch with
    | false => simp [matching] at is
    | true =>
      simp only [matching, if_true] at is
      split_ifs at is
      cases is
      exact usable.compiles matching

end Cluster

namespace ClusterIterator

variable {w : Cluster} {config : ScanConfig} {s s' s'' : ClusterIterator} {kind : Kind}

/-! ## No key twice -/

/-- A matching key of a fragment of the partition, at some time. -/
def Held (w : Cluster) (config : ScanConfig) (partID : ℕ) (key : Bytes) : Prop :=
  ∃ t kind owner m, w.fragment t kind partID owner = some m ∧
    ∃ slot ∈ m.toList, slot.matches (w.regexp config) = true ∧ slot.entry.key = key

/-- The page of the partition has got some new keys. -/
structure Extends (w : Cluster) (config : ScanConfig) (s s' : ClusterIterator)
    (added : List Bytes) : Prop where
  partID : s'.partID = s.partID
  pos : s'.pos = s.pos
  page : s'.page = s.page ++ added
  partitionKeys : s'.partitionKeys = s.partitionKeys ++ added
  fresh : ∀ key ∈ added, key ∉ s.partitionKeys
  nodup : added.Nodup
  held : ∀ key ∈ added, Held w config s.partID key

theorem Extends.refl (s : ClusterIterator) : Extends w config s s [] :=
  ⟨rfl, rfl, (List.append_nil _).symm, (List.append_nil _).symm, nofun, .nil, nofun⟩

theorem Extends.trans {added more : List Bytes} (h : Extends w config s s' added)
    (h' : Extends w config s' s'' more) : Extends w config s s'' (added ++ more) where
  partID := h'.partID.trans h.partID
  pos := h'.pos.trans h.pos
  page := by rw [h'.page, h.page, List.append_assoc]
  partitionKeys := by rw [h'.partitionKeys, h.partitionKeys, List.append_assoc]
  fresh key member := by
    rcases List.mem_append.1 member with old | new
    · exact h.fresh key old
    · intro known
      exact h'.fresh key new (h.partitionKeys ▸ List.mem_append_left _ known)
  nodup := by
    refine List.nodup_append'.2 ⟨h.nodup, h'.nodup, fun key old new => ?_⟩
    exact h'.fresh key new (h.partitionKeys ▸ List.mem_append_right _ old)
  held key member := by
    rcases List.mem_append.1 member with old | new
    · exact h.held key old
    · exact h.partID ▸ h'.held key new

/-- A step that leaves the page alone. -/
theorem Extends.frame {added : List Bytes} (h : Extends w config s s' added)
    (partID : s''.partID = s'.partID) (pos : s''.pos = s'.pos) (page : s''.page = s'.page)
    (partitionKeys : s''.partitionKeys = s'.partitionKeys) : Extends w config s s'' added :=
  ⟨partID.trans h.partID, pos.trans h.pos, page.trans h.page,
    partitionKeys.trans h.partitionKeys, h.fresh, h.nodup, h.held⟩

theorem addKey_extends {key : Bytes} (held : Held w config s.partID key) :
    ∃ added, Extends w config s (s.addKey key) added ∧ key ∈ (s.addKey key).partitionKeys := by
  unfold addKey
  split_ifs with known
  · exact ⟨[], .refl s, known⟩
  · exact ⟨[key], ⟨rfl, rfl, rfl, rfl, by simpa using known, List.nodup_singleton key,
      by simpa using held⟩, by simp⟩

theorem foldl_addKey_extends (keys : List Bytes) (s : ClusterIterator)
    (held : ∀ key ∈ keys, Held w config s.partID key) :
    ∃ added, Extends w config s (keys.foldl addKey s) added ∧
      ∀ key ∈ keys, key ∈ (keys.foldl addKey s).partitionKeys := by
  induction keys generalizing s with
  | nil => exact ⟨[], .refl s, nofun⟩
  | cons key keys ih =>
    obtain ⟨added, one, known⟩ := addKey_extends (held key List.mem_cons_self)
    obtain ⟨more, rest, all⟩ := ih (s.addKey key) fun key' member => by
      rw [one.partID]
      exact held key' (List.mem_cons_of_mem key member)
    refine ⟨added ++ more, one.trans rest, fun key' member => ?_⟩
    rcases List.mem_cons.1 member with rfl | later
    · rw [List.foldl_cons, rest.partitionKeys]
      exact List.mem_append_left _ known
    · exact all key' later

/-- What a new routing table leaves alone. -/
theorem fetchRoutingTable_frame (w : Cluster) (s : ClusterIterator) :
    (s.fetchRoutingTable w).partID = s.partID ∧ (s.fetchRoutingTable w).pos = s.pos ∧
      (s.fetchRoutingTable w).page = s.page ∧
      (s.fetchRoutingTable w).partitionKeys = s.partitionKeys ∧
      (s.fetchRoutingTable w).array = s.array ∧ (s.fetchRoutingTable w).left = s.left ∧
      (s.fetchRoutingTable w).cursors = s.cursors := by
  unfold fetchRoutingTable
  split <;> exact ⟨rfl, rfl, rfl, rfl, rfl, rfl, rfl⟩

theorem removeScannedOwner_frame (s : ClusterIterator) (kind : Kind) (idx : ℕ) :
    (s.removeScannedOwner kind idx).partID = s.partID ∧
      (s.removeScannedOwner kind idx).pos = s.pos ∧
      (s.removeScannedOwner kind idx).page = s.page ∧
      (s.removeScannedOwner kind idx).partitionKeys = s.partitionKeys ∧
      (s.removeScannedOwner kind idx).cursors = s.cursors := by
  unfold removeScannedOwner
  split_ifs <;> exact ⟨rfl, rfl, rfl, rfl, rfl⟩

/-- The state after an answer of the owner at `idx`. -/
def answered (w : Cluster) (s : ClusterIterator) (kind : Kind) (keys : List Bytes)
    (newCursor : ℕ) (owner : String) (idx : ℕ) : ClusterIterator :=
  let s := (s.countCall.updateIterator kind keys newCursor owner).fetchRoutingTable w
  if newCursor = 0 then s.removeScannedOwner kind idx else s

theorem answered_extends (kind : Kind) {keys : List Bytes}
    (held : ∀ key ∈ keys, Held w config s.partID key) (newCursor : ℕ) (owner : String) (idx : ℕ) :
    ∃ added, Extends w config s (s.answered w kind keys newCursor owner idx) added ∧
      ∀ key ∈ keys, key ∈ (s.answered w kind keys newCursor owner idx).partitionKeys := by
  obtain ⟨added, h, all⟩ := foldl_addKey_extends keys s.countCall held
  have table := fetchRoutingTable_frame w (s.countCall.updateIterator kind keys newCursor owner)
  have updated : Extends w config s
      ((s.countCall.updateIterator kind keys newCursor owner).fetchRoutingTable w) added :=
    Extends.frame ⟨h.partID, h.pos, h.page, h.partitionKeys, h.fresh, h.nodup, h.held⟩
      table.1 table.2.1 table.2.2.1 table.2.2.2.1
  have known : ∀ key ∈ keys, key ∈
      ((s.countCall.updateIterator kind keys newCursor owner).fetchRoutingTable w).partitionKeys :=
    fun key member => table.2.2.2.1.symm ▸ all key member
  refine ⟨added, ?_⟩
  unfold answered
  split_ifs with finished
  · obtain ⟨partID, pos, page, partitionKeys, -⟩ := removeScannedOwner_frame
      ((s.countCall.updateIterator kind keys newCursor owner).fetchRoutingTable w) kind idx
    exact ⟨updated.frame partID pos page partitionKeys, partitionKeys.symm ▸ known⟩
  · exact ⟨updated, known⟩

theorem scanLoop_extends (w : Cluster) (config : ScanConfig) (kind : Kind) (owners : List String)
    (idx : ℕ) (s : ClusterIterator) :
    ∃ added, Extends w config s (scanLoop w config kind owners idx s).1 added := by
  induction owners generalizing idx s with
  | nil => exact ⟨[], .refl s⟩
  | cons owner owners ih =>
    simp only [scanLoop]
    split
    · exact ⟨[], (Extends.refl s).frame rfl rfl rfl rfl⟩
    · rename_i keys newCursor asked
      have held : ∀ key ∈ keys, Held w config s.partID key := fun key member => by
        obtain ⟨m, is, slot⟩ := (Cluster.ask_answer asked).sound key member
        exact ⟨_, _, _, m, is, slot⟩
      obtain ⟨added, one, -⟩ := answered_extends kind held newCursor owner idx
      obtain ⟨more, rest⟩ := ih (idx + 1) (s.answered w kind keys newCursor owner idx)
      exact ⟨added ++ more, one.trans rest⟩

theorem scanOnOwners_extends (w : Cluster) (config : ScanConfig) (s : ClusterIterator)
    (kind : Kind) :
    ∃ added, Extends w config s (s.scanOnOwners w config kind).1 added := by
  obtain ⟨partID, pos, page, partitionKeys, -⟩ := fetchRoutingTable_frame w s
  obtain ⟨added, h⟩ := scanLoop_extends w config kind
    ((s.fetchRoutingTable w).getOwners kind) 0 (s.fetchRoutingTable w)
  exact ⟨_, ((Extends.refl s).frame partID pos page partitionKeys).trans h⟩

theorem fetchData_extends (w : Cluster) (config : ScanConfig) (s : ClusterIterator) :
    ∃ added, Extends w config s (s.fetchData w config).1 added := by
  obtain ⟨added, h⟩ := scanOnOwners_extends w config s .primary
  unfold fetchData
  dsimp only
  split_ifs
  · obtain ⟨more, h'⟩ := scanOnOwners_extends w config
      (s.scanOnOwners w config .primary).1 .replica
    exact ⟨added ++ more, h.trans h'⟩
  · exact ⟨added, h⟩

/-- The loop ends with what its last round has left. -/
theorem fetchLoop_extends {fuel : ℕ} {b : Bool} (blank : s.page = [])
    (h : fetchLoop w config fuel s = some (s', b)) :
    Extends w config s s' s'.page ∧ (b = true → s'.page ≠ [] ∨ s'.Scanned) := by
  induction fuel generalizing s with
  | zero => cases h
  | succ fuel ih =>
    obtain ⟨added, one⟩ := fetchData_extends w config s
    have page : (s.fetchData w config).1.page = added := by rw [one.page, blank, List.nil_append]
    rw [← page] at one
    simp only [fetchLoop] at h
    split_ifs at h with failed nonempty finished
    · obtain ⟨rfl, rfl⟩ := Prod.ext_iff.1 (Option.some.inj h)
      exact ⟨one, fun ok => absurd (failed.symm.trans ok) (by decide)⟩
    · obtain ⟨rfl, -⟩ := Prod.ext_iff.1 (Option.some.inj h)
      exact ⟨one, fun _ => .inl nonempty⟩
    · obtain ⟨rfl, -⟩ := Prod.ext_iff.1 (Option.some.inj h)
      exact ⟨one, fun _ => .inr finished⟩
    · rw [not_not] at nonempty
      obtain ⟨rest, stopped⟩ := ih nonempty h
      have both := one.trans rest
      rw [nonempty, List.nil_append] at both
      exact ⟨both, stopped⟩

/-- What the keys of a partition are until its end. -/
structure Tidy (w : Cluster) (config : ScanConfig) (s : ClusterIterator) : Prop where
  suffix : ∃ before, s.partitionKeys = before ++ s.page
  nodup : s.partitionKeys.Nodup
  held : ∀ key ∈ s.partitionKeys, Held w config s.partID key

theorem Tidy.extends {added : List Bytes} (tidy : s.Tidy w config)
    (h : Extends w config s s' added) (page : s'.page = added) : s'.Tidy w config where
  suffix := ⟨s.partitionKeys, page ▸ h.partitionKeys⟩
  nodup := by
    rw [h.partitionKeys]
    exact List.nodup_append'.2 ⟨tidy.nodup, h.nodup, fun key old new => h.fresh key new old⟩
  held key member := by
    rw [h.partitionKeys] at member
    rw [h.partID]
    rcases List.mem_append.1 member with old | new
    · exact tidy.held key old
    · exact h.held key new

/-- `Next` has answered true: it has gone on on the page or brought a new one. -/
inductive Turned (s s' : ClusterIterator) : Prop
  | read (readable : s.Readable) (is : s' = s.setPos (s.pos + 1))
  | page (pos : s'.pos = 1) (nonempty : s'.page ≠ []) (partID : s'.partID = s.partID)
      (partitionKeys : s'.partitionKeys = s.partitionKeys ++ s'.page)
  | partition (pos : s'.pos = 1) (nonempty : s'.page ≠ []) (partID : s.partID < s'.partID)

theorem reset_tidy (w : Cluster) (config : ScanConfig) (s : ClusterIterator) :
    (s.reset w).Tidy w config ∧
    (s.reset w).partID = s.partID ∧ (s.reset w).page = [] ∧ (s.reset w).pos = 0 ∧
    (s.reset w).partitionKeys = [] := by
  obtain ⟨partID, pos, page, partitionKeys, -⟩ :=
    fetchRoutingTable_frame w { s.resetPage with partitionKeys := [] }
  have keys : (s.reset w).partitionKeys = [] := partitionKeys
  exact ⟨⟨⟨[], by rw [keys]; exact page.symm⟩, keys ▸ .nil, fun key member => by
    rw [keys] at member
    cases member⟩, partID, page, pos, keys⟩

theorem next_turned {fuel : ℕ} (tidy : s.Tidy w config)
    (h : next w config fuel s = some (s', true)) : s'.Tidy w config ∧ Turned s s' := by
  induction fuel generalizing s with
  | zero => cases h
  | succ fuel ih =>
    simp only [next] at h
    by_cases readable : s.Readable
    · rw [if_pos readable] at h
      cases h
      exact ⟨⟨tidy.suffix, tidy.nodup, tidy.held⟩, .read readable rfl⟩
    · rw [if_neg readable] at h
      obtain ⟨⟨r, ok⟩, fetched, h⟩ := Option.bind_eq_some_iff.1 h
      obtain ⟨extended, stopped⟩ := fetchLoop_extends rfl fetched
      have tidy' : r.Tidy w config :=
        Tidy.extends (s := s.resetPage) ⟨⟨s.partitionKeys, (List.append_nil _).symm⟩,
          tidy.nodup, tidy.held⟩ extended rfl
      dsimp only at h
      split_ifs at h with failed finished last
      · cases h
        cases failed
      · cases h
      · obtain ⟨blank, partID, page, -⟩ :=
          reset_tidy w config r.nextPartition
        obtain ⟨tidy', turned⟩ := ih blank h
        have before : s.partID < (r.nextPartition.reset w).partID := by
          rw [partID]
          exact Nat.lt_succ_of_le extended.partID.ge
        refine ⟨tidy', ?_⟩
        cases turned with
        | read readable is => exact absurd page readable.1
        | page pos nonempty same => exact .partition pos nonempty (same ▸ before)
        | partition pos nonempty later => exact .partition pos nonempty (before.trans later)
      · cases h
        have nonempty : r.page ≠ [] := fun empty =>
          finished ⟨empty, (stopped (by simpa using failed)).resolve_left (· empty)⟩
        exact ⟨⟨tidy'.suffix, tidy'.nodup, tidy'.held⟩,
          .page rfl nonempty extended.partID extended.partitionKeys⟩

theorem key_eq (s : ClusterIterator) {i : ℕ} (pos : s.pos = i + 1) (lt : i < s.page.length) :
    s.key = s.page[i] := by
  unfold key
  rw [if_pos (by omega), pos, Nat.add_sub_cancel, List.getD_eq_getElem?_getD,
    List.getElem?_eq_getElem lt, Option.getD_some]

/-- A key that an iteration can still bring. -/
structure Pending (w : Cluster) (config : ScanConfig) (part : Bytes → ℕ) (s : ClusterIterator)
    (key : Bytes) : Prop where
  held : Held w config (part key) key
  ahead : key ∈ s.page.drop s.pos ∨ (part key = s.partID ∧ key ∉ s.partitionKeys) ∨
    s.partID < part key

/-- The fragments of a partition only have keys of the partition. -/
def Placed (w : Cluster) (part : Bytes → ℕ) : Prop :=
  ∀ t kind partID owner m, w.fragment t kind partID owner = some m →
    ∀ slot ∈ m.toList, part slot.entry.key = partID

theorem Placed.eq {part : Bytes → ℕ} (placed : Placed w part) {partID : ℕ} {key : Bytes}
    (held : Held w config partID key) : part key = partID := by
  obtain ⟨t, kind, owner, m, is, slot, member, -, rfl⟩ := held
  exact placed t kind partID owner m is slot member

/-- The key that `Next` has brought is on the page before `pos`, and what is ahead from there on was
ahead before. -/
theorem Turned.pending {part : Bytes → ℕ} (turned : Turned s s') (tidy : s'.Tidy w config)
    (placed : Placed w part) :
    ∃ i, s'.pos = i + 1 ∧ i < s'.page.length ∧ ∀ key, Held w config (part key) key →
      (key ∈ s'.page.drop i ∨ (part key = s'.partID ∧ key ∉ s'.partitionKeys) ∨
        s'.partID < part key) → Pending w config part s key := by
  have home key (new : key ∈ s'.page) : part key = s'.partID := by
    obtain ⟨before, keys⟩ := tidy.suffix
    exact placed.eq (tidy.held key (keys ▸ List.mem_append_right _ new))
  cases turned with
  | read readable is =>
    subst is
    exact ⟨s.pos, rfl, readable.2, fun key held ahead => ⟨held, ahead⟩⟩
  | page pos nonempty partID partitionKeys =>
    refine ⟨0, pos, List.length_pos_iff.2 nonempty, fun key held ahead => ⟨held, .inr ?_⟩⟩
    rcases ahead with new | ⟨same, other⟩ | later
    · have distinct := tidy.nodup
      rw [partitionKeys] at distinct
      exact .inl ⟨(home key new).trans partID,
        fun old => List.disjoint_of_nodup_append distinct old new⟩
    · refine .inl ⟨same.trans partID, fun old => other ?_⟩
      rw [partitionKeys]
      exact List.mem_append_left _ old
    · exact .inr (partID ▸ later)
  | partition pos nonempty partID =>
    refine ⟨0, pos, List.length_pos_iff.2 nonempty, fun key held ahead => ⟨held, .inr (.inr ?_)⟩⟩
    rcases ahead with new | ⟨same, -⟩ | later
    · exact (home key new).symm ▸ partID
    · exact same.symm ▸ partID
    · exact partID.trans later

/-- A caller reads no key twice, and only keys that were there. -/
theorem drain_pending {part : Bytes → ℕ} (placed : Placed w part) {fuel : ℕ}
    {ks : List Bytes} (tidy : s.Tidy w config) (h : drain w config fuel s = some ks) :
    ks.Nodup ∧ ∀ key ∈ ks, Pending w config part s key := by
  induction fuel generalizing s ks with
  | zero => cases h
  | succ fuel ih =>
    obtain ⟨⟨s', ok⟩, called, h⟩ := Option.bind_eq_some_iff.1 h
    cases ok with
    | false =>
      cases h
      exact ⟨.nil, nofun⟩
    | true =>
      obtain ⟨rest, drained, rfl⟩ := Option.map_eq_some_iff.1 h
      obtain ⟨tidy', turned⟩ := next_turned tidy called
      obtain ⟨distinct, pending⟩ := ih tidy' drained
      obtain ⟨i, pos, lt, lift⟩ := turned.pending tidy' placed
      obtain ⟨before, keys⟩ := tidy'.suffix
      have split : s'.page.drop i = s'.key :: s'.page.drop s'.pos := by
        rw [s'.key_eq pos lt, pos, List.drop_eq_getElem_cons lt]
      have member : s'.key ∈ s'.partitionKeys := by
        rw [keys, s'.key_eq pos lt]
        exact List.mem_append_right _ (List.getElem_mem lt)
      have held := tidy'.held s'.key member
      have home : part s'.key = s'.partID := placed.eq held
      have page : (s'.page.drop i).Nodup := by
        have all := tidy'.nodup
        rw [keys] at all
        exact (List.nodup_append'.1 all).2.1.sublist (List.drop_sublist _ _)
      rw [split] at page
      refine ⟨List.nodup_cons.2 ⟨fun again => ?_, distinct⟩, fun key known => ?_⟩
      · rcases (pending _ again).ahead with later | ⟨-, new⟩ | later
        · exact (List.nodup_cons.1 page).1 later
        · exact new member
        · exact absurd later (home ▸ lt_irrefl _)
      · refine lift key ?_ ?_
        · rcases List.mem_cons.1 known with rfl | known
          · exact home.symm ▸ held
          · exact (pending key known).held
        · rw [split]
          rcases List.mem_cons.1 known with rfl | known
          · exact .inl List.mem_cons_self
          · exact (pending key known).ahead.imp_left (List.mem_cons_of_mem _)

end ClusterIterator

end OlricStack.Dmap
