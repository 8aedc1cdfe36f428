import OlricStack.Node.Codec
import OlricStack.Node.Replication

/-!
# After the deadline

An entry whose deadline has passed stays in memory until something removes it.  GET looks past it
and asks the durable side; but when that answers with a record, the second look under the lock
returns the resident entry without asking for its deadline (`Get` in the dmap fork).  EXPIRE does
not ask for it at all (`putOnCluster`).  Where neither meets such an entry, and no refill brings
back an older record, a value is not served or revived once its deadline has passed
(`expiry_is_final`); otherwise it may be (`expired_value_returns`).
-/

namespace OlricStack.Node

open Transition

/-! ## What SET and EXPIRE leave of a key -/

/-- The first reading of the clock in the call, in milliseconds. -/
def PutCall.startedMs (c : PutCall) : ℤ := c.io.preparedAt.tdiv 1000000

/-- What a call leaves of the entry of key `k`. -/
inductive Leaves (c : PutCall) (k : ℕ) : Option MemEntry → Prop
  | gone : Leaves c k none
  | same : Leaves c k (c.engine.get k)
  | set (isSet : c.env.putConfig.onlyUpdateTTL = false) (key : k = c.env.hkey) :
      Leaves c k (some c.prepareEntry)
  | expire {old : MemEntry} (isExpire : c.env.putConfig.onlyUpdateTTL = true)
      (key : k = c.env.hkey) (resident : c.engine.get k = some old) (fenced : c.Fenced) :
      Leaves c k (some (old.touch c.prepareEntry))

namespace PutCall

variable {c : PutCall}

theorem putOnClusterAfterDurable_engine (c : PutCall) (m : Engine) :
    (c.putOnClusterAfterDurable m).2 = m ∨
      (c.putOnClusterAfterDurable m).2 = (c.putEntryOnFragment m).2 := by
  unfold putOnClusterAfterDurable
  split_ifs
  · right
    unfold asyncPutOnCluster
    split <;> next put => rw [put]
  · unfold syncPutOnCluster
    split
    · exact .inl rfl
    · exact .inr rfl
  · exact .inl rfl
  · exact .inr rfl

/-- After evictions, what the write leaves. -/
theorem leaves_of_write {m : Engine} (evicted : ∀ k, m.get k = none ∨ m.get k = c.engine.get k)
    (fenced : c.env.putConfig.onlyUpdateTTL = true → c.Fenced) (k : ℕ) :
    Leaves c k ((c.putOnClusterAfterDurable m).2.get k) := by
  have unchanged : Leaves c k (m.get k) := by
    rcases evicted k with gone | same
    · rw [gone]
      exact .gone
    · rw [same]
      exact .same
  rcases putOnClusterAfterDurable_engine c m with kept | put
  · rw [kept]
    exact unchanged
  · rw [put, putEntryOnFragment]
    split_ifs with isExpire
    · unfold Engine.updateTTL
      cases current : m.get c.env.hkey with
      | none => exact unchanged
      | some old =>
        simp only [Option.map_some, Engine.get_put]
        split_ifs with key
        · have resident : c.engine.get k = some old := by
            rcases evicted k with gone | same
            · rw [key, current] at gone
              cases gone
            · rw [← same, key, current]
          exact .expire isExpire key resident (fenced isExpire)
        · exact unchanged
    · rw [Engine.get_put]
      split_ifs with key
      · exact .set (by simpa using isExpire) key
      · exact unchanged

theorem leaves_of_abort {prepared : Option DurableOperation} {err : PutError} {m : Engine}
    {r : PutReturned} (h : c.abort prepared err m = some r) : r.engine = m := by
  cases prepared with
  | none => cases h; rfl
  | some op => cases h; rfl

theorem engine_of_finish {after : Bool → Script → Option Returned}
    {mutation : Option PutError × Engine} {r : PutReturned}
    (h : c.finish after mutation = some r) : r.engine = mutation.2 := by
  obtain ⟨out, -, rfl⟩ := Option.map_eq_some_iff.1 h
  rfl

theorem evicted_cases {m : Engine} {err : Option PutError}
    (h : c.setLRUEvictionStats = some (err, m)) (k : ℕ) :
    m.get k = none ∨ m.get k = c.engine.get k := by
  obtain ⟨gone, kept⟩ := (setLRUEvictionStats_spec h).2 k
  by_cases victim : k ∈ c.evicted
  · exact .inl (gone victim).1
  · exact .inr (kept victim)

theorem leaves_of_locked {prepared : Option DurableOperation}
    (isSet : prepared.isSome → c.env.putConfig.onlyUpdateTTL = false) {r : PutReturned}
    (h : c.locked prepared = some r) (k : ℕ) : Leaves c k (r.engine.get k) := by
  have evicted {m : Engine} {err : Option PutError} (h : c.setLRUEvictionStats = some (err, m)) :
      Leaves c k (m.get k) := by
    rcases evicted_cases h k with gone | same
    · rw [gone]
      exact .gone
    · rw [same]
      exact .same
  unfold locked at h
  split at h
  · rw [leaves_of_abort h]
    exact .same
  · split at h
    · cases h
    · next evictions =>
      rw [leaves_of_abort h]
      exact evicted evictions
    · next m evictions =>
      split at h
      · unfold expire at h
        split at h
        · cases h
          exact evicted evictions
        · next current resident =>
          rcases before_cases (c.operation (current.touch c.prepareEntry)) with
            ⟨-, err, refused⟩ | ⟨fenced, granted⟩
          · rw [refused] at h
            cases h
            exact evicted evictions
          · rw [granted] at h
            rw [engine_of_finish h]
            exact leaves_of_write (evicted_cases evictions) (fun _ => fenced) k
      · next op =>
        rw [engine_of_finish h]
        refine leaves_of_write (evicted_cases evictions) (fun isExpire => ?_) k
        rw [isSet rfl] at isExpire
        cases isExpire

/-- What a call can do to the entry of a key. -/
theorem putOnCluster_leaves {r : PutReturned} (ret : c.putOnCluster = some r) (k : ℕ) :
    Leaves c k (r.engine.get k) := by
  unfold putOnCluster at ret
  split at ret
  · cases ret
    exact .same
  · split at ret
    · exact leaves_of_locked (by simp) ret k
    · next isSet =>
      have isSet := Bool.eq_false_iff.2 isSet
      split at ret
      · cases ret
        exact .same
      · split at ret
        · exact leaves_of_locked (fun _ => isSet) ret k
        · rw [leaves_of_abort ret]
          exact .same

/-- Nothing keeps an EXPIRE from its entry: the fragment opens, no eviction is due, the lease is
valid and there is room in the ring. -/
structure Unhindered (c : PutCall) : Prop where
  fragment : c.io.fragmentErr = none
  keeps : ∀ d ∈ c.config.dmap, d.lruEviction = true → c.due d = []
  fenced : c.Fenced

theorem Unhindered.setLRUEvictionStats (h : c.Unhindered) :
    c.setLRUEvictionStats = some (none, c.engine) := by
  unfold PutCall.setLRUEvictionStats
  split
  · next d config =>
    split_ifs with lru
    · rw [h.keeps d config lru]
      rfl
    · rfl
  · rfl

end PutCall

/-! ## The keys of an owner -/

/-- What the sidecar may answer at `nowMs`: a record it finds is not expired, and has the deadline
that is encoded in it. -/
def LoadAnswer.Possible (spare : Bytes) (nowMs : ℤ) : LoadAnswer → Prop
  | .found record => recordExpiredAt record nowMs = false ∧
      ∀ entry ∈ MemEntry.decode record.encodedEntry spare, entry.ttl = record.ttl
  | _ => True

instance (spare : Bytes) (nowMs : ℤ) (a : LoadAnswer) : Decidable (a.Possible spare nowMs) := by
  cases a <;> unfold LoadAnswer.Possible <;> infer_instance

/-- The errors of a read. -/
inductive GetError
  | readQuorum
  | keyNotFound
deriving DecidableEq, Repr

/-- `getOnCluster`: the version on this node, the versions that other members have sent, and which
of them is first after the sort.  `none` if this is not how the sort can come out. -/
def getOnCluster (readQuorum : ℤ) (here : Option MemEntry) (others : List MemEntry)
    (winner : MemEntry) (idle : Bool) (nowMs : ℤ) : Option (Except GetError MemEntry) :=
  let sorted := here.toList ++ others
  if (1 + others.length : ℤ) < readQuorum then some (.error .readQuorum)
  else if sorted = [] then some (.error .keyNotFound)
  else if sorted.length < readQuorum then some (.error .readQuorum)
  else if winner ∈ sorted ∧ ∀ v ∈ sorted, v.timestamp ≤ winner.timestamp then
    if isKeyExpired winner.ttl nowMs || idle then some (.error .keyNotFound)
    else some (.ok winner)
  else none

/-- How far a GET has come; `returned none` is an error. -/
inductive ReadPc
  | called
  | missed
  | loaded (entry : MemEntry)
  | returned (entry : Option MemEntry)
deriving DecidableEq, Repr

/-- A GET and the clock at its start. -/
structure Read where
  hkey : ℕ
  startedMs : ℤ
  pc : ReadPc
deriving DecidableEq, Repr

/-- The entries of the owner, and the reads under way. -/
structure OwnerState where
  engine : Engine
  /-- what the last SET, EXPIRE or DEL has left of a key -/
  last : ℕ → Option MemEntry
  gets : List Read

/-- What the owner does with a key. -/
inductive OwnerAction
  /-- a SET or EXPIRE; the storage it meets is the owner's -/
  | put (c : PutCall)
  | delete (hkey : ℕ)
  /-- the entry is evicted from memory -/
  | evict (hkey : ℕ)
  | get (hkey : ℕ) (nowMs : ℤ)
  | lookup (i : ℕ) (readQuorum : ℤ) (others : List MemEntry) (winner : MemEntry) (idle : Bool)
      (nowMs : ℤ)
  | load (i : ℕ) (control : Option LoadAnswer) (spare : Bytes) (nowMs : ℤ)
  /-- the second look under the lock, and the refill -/
  | recheck (i : ℕ)

namespace OwnerState

/-- The read `g`, which is the `i`-th, is at `pc` now. -/
def moved (s : OwnerState) (i : ℕ) (g : Read) (pc : ReadPc) : OwnerState :=
  { s with gets := s.gets.set i { g with pc } }

/-- The call on the owner's storage. -/
def on (s : OwnerState) (c : PutCall) : PutCall := { c with engine := s.engine }

/-- The storage after a call.  What the call has left of its key is what was last written, unless
it has left nothing. -/
def after (s : OwnerState) (hkey : ℕ) (m : Engine) : OwnerState :=
  { s with
    engine := m
    last := fun k => if k = hkey then (m.get k).or (s.last k) else s.last k }

end OwnerState

/-- One action of the owner. -/
def ownerStep (s : OwnerState) : OwnerAction → Option OwnerState
  | .put c => (s.on c).putOnCluster.map fun r => s.after c.env.hkey r.engine
  | .delete hkey => some { s with
      engine := s.engine.delete hkey, last := fun k => if k = hkey then none else s.last k }
  | .evict hkey => some { s with engine := s.engine.delete hkey }
  | .get hkey nowMs => some { s with gets := s.gets ++ [⟨hkey, nowMs, .called⟩] }
  | .lookup i readQuorum others winner idle nowMs =>
    match s.gets[i]? with
    | some g =>
      if g.pc = .called ∧ g.startedMs ≤ nowMs then
        (getOnCluster readQuorum (s.engine.get g.hkey) others winner idle nowMs).map fun
          | .ok entry => s.moved i g (.returned (some entry))
          | .error .keyNotFound => s.moved i g .missed
          | .error .readQuorum => s.moved i g (.returned none)
      else none
    | none => none
  | .load i control spare nowMs =>
    match s.gets[i]? with
    | some g =>
      if g.pc = .missed ∧ g.startedMs ≤ nowMs ∧ ∀ a ∈ control, a.Possible spare nowMs then
        match loadOnMiss control (some ⟨[], [], 0, 0, 0⟩) spare with
        | .ok entry => some (s.moved i g (.loaded entry))
        | .error _ => some (s.moved i g (.returned none))
      else none
    | none => none
  | .recheck i =>
    match s.gets[i]? with
    | some g =>
      match g.pc with
      | .loaded entry =>
        match s.engine.get g.hkey with
        | some existing => some (s.moved i g (.returned (some existing)))
        | none =>
          some { s.moved i g (.returned (some entry)) with engine := s.engine.put g.hkey entry }
      | _ => none
    | none => none

/-! ## Where expiry is final -/

/-- The entry that a GET is about to store, or to drop in favour of the resident one. -/
def ReadPc.entry? : ReadPc → Option MemEntry
  | .loaded entry => some entry
  | _ => none

/-- A GET that has loaded `entry` does not meet a resident entry whose deadline had passed at its
start; and if it stores what it has loaded, that is what was last written, with a deadline not
before 1970. -/
def Rechecks (s : OwnerState) (g : Read) (entry : MemEntry) : Prop :=
  match s.engine.get g.hkey with
  | some existing => isKeyExpired existing.ttl g.startedMs = false
  | none => s.last g.hkey = some entry ∧ 0 ≤ entry.ttl

instance (s : OwnerState) (g : Read) (entry : MemEntry) : Decidable (Rechecks s g entry) := by
  unfold Rechecks
  split <;> infer_instance

/-- Neither the second look of a GET nor an EXPIRE that gets its fence meets a resident entry whose
deadline had passed at its start. -/
def Cleared (s : OwnerState) : OwnerAction → Prop
  | .put c => c.env.putConfig.onlyUpdateTTL = true → c.Fenced →
      ∀ entry ∈ s.engine.get c.env.hkey, isKeyExpired entry.ttl c.startedMs = false
  | .recheck i => ∀ g ∈ s.gets[i]?, ∀ entry ∈ g.pc.entry?, Rechecks s g entry
  | _ => True

instance (c : PutCall) : Decidable c.Fenced := by
  unfold PutCall.Fenced
  infer_instance

instance (s : OwnerState) (a : OwnerAction) : Decidable (Cleared s a) := by
  cases a <;> unfold Cleared <;> infer_instance

/-- Nothing has been written, and no GET is under way. -/
structure OwnerState.Start (s : OwnerState) : Prop where
  engine : ∀ k, s.engine.get k = none
  gets : s.gets = []

theorem isKeyExpired_mono {ttl a b : ℤ} (le : a ≤ b) (h : isKeyExpired ttl b = false) :
    isKeyExpired ttl a = false := by
  simp only [isKeyExpired, ne_eq, decide_not, Bool.and_eq_false_iff, Bool.not_eq_false',
    decide_eq_true_eq, decide_eq_false_iff_not] at h ⊢
  omega

/-- What is loaded has not expired for the sidecar, what is returned not for the owner. -/
def Read.Live (g : Read) : Prop :=
  match g.pc with
  | .loaded entry => entry.ttl ≤ 0 ∨ g.startedMs < entry.ttl
  | .returned (some entry) => isKeyExpired entry.ttl g.startedMs = false
  | _ => True

/-- Memory has nothing but what was written last, and a read answers no entry past its deadline. -/
structure OwnerInv (s : OwnerState) : Prop where
  resident : ∀ k entry, s.engine.get k = some entry → s.last k = some entry
  live : ∀ g ∈ s.gets, g.Live

namespace OwnerInv

variable {s u : OwnerState}

theorem start (h : s.Start) : OwnerInv s := by
  refine ⟨fun k entry resident => ?_, by simp [h.gets]⟩
  rw [h.engine k] at resident
  cases resident

theorem moved (hi : OwnerInv s) (i : ℕ) {g : Read} {pc : ReadPc}
    (live : Read.Live { g with pc }) : OwnerInv (s.moved i g pc) :=
  ⟨hi.resident, forall_mem_set hi.live live⟩

/-- The entry that `getOnCluster` returns has not expired. -/
theorem live_of_getOnCluster {q nowMs : ℤ} {here : Option MemEntry} {others : List MemEntry}
    {winner entry : MemEntry} {idle : Bool}
    (h : getOnCluster q here others winner idle nowMs = some (.ok entry)) :
    isKeyExpired entry.ttl nowMs = false := by
  unfold getOnCluster at h
  dsimp only at h
  split_ifs at h with few empty short first gone <;> cases h
  simp only [Bool.or_eq_true, not_or, Bool.not_eq_true] at gone
  exact gone.1

/-- What `LoadOnMiss` returns has not expired for the sidecar. -/
theorem live_of_loadOnMiss {control : Option LoadAnswer} {template : Option MemEntry}
    {spare : Bytes} {nowMs : ℤ} {entry : MemEntry}
    (possible : ∀ a ∈ control, a.Possible spare nowMs)
    (h : loadOnMiss control template spare = .ok entry) :
    entry.ttl ≤ 0 ∨ nowMs < entry.ttl := by
  unfold loadOnMiss at h
  split at h
  · cases h
  · cases h
  · cases h
  · next record =>
    split_ifs at h
    split at h
    · next decoded =>
      cases h
      obtain ⟨live, same⟩ := possible _ rfl
      rw [same _ decoded]
      unfold recordExpiredAt at live
      split_ifs at live with none
      · exact .inl none
      · exact .inr (not_le.1 (of_decide_eq_false live))
    · cases h

/-- A SET or EXPIRE leaves of a key nothing, what was last written, or what it writes itself. -/
theorem put (hi : OwnerInv s) {c : PutCall} {r : PutReturned}
    (ret : (s.on c).putOnCluster = some r) : OwnerInv (s.after c.env.hkey r.engine) := by
  refine ⟨fun k entry resident => ?_, hi.live⟩
  show (if k = c.env.hkey then (r.engine.get k).or (s.last k) else s.last k) = some entry
  split_ifs with key
  · rw [show r.engine.get k = some entry from resident]
    rfl
  · have leaves := PutCall.putOnCluster_leaves ret k
    rw [show r.engine.get k = some entry from resident] at leaves
    generalize left : some entry = x at leaves
    cases leaves with
    | gone => cases left
    | same => exact (hi.resident k entry left.symm).trans left
    | set _ same => exact absurd same key
    | expire _ same => exact absurd same key

theorem step (hi : OwnerInv s) {a : OwnerAction} (cleared : Cleared s a)
    (h : ownerStep s a = some u) : OwnerInv u := by
  cases a with
  | put c =>
    obtain ⟨r, ret, rfl⟩ := Option.map_eq_some_iff.1 h
    exact hi.put ret
  | delete hkey =>
    cases h
    refine ⟨fun k entry resident => ?_, hi.live⟩
    rw [Engine.get_delete] at resident
    split_ifs at resident with same
    simpa only [if_neg same] using hi.resident k entry resident
  | evict hkey =>
    cases h
    refine ⟨fun k entry resident => ?_, hi.live⟩
    rw [Engine.get_delete] at resident
    split_ifs at resident
    exact hi.resident k entry resident
  | get hkey nowMs =>
    cases h
    exact ⟨hi.resident, forall_mem_snoc hi.live trivial⟩
  | lookup i q others winner idle nowMs =>
    simp only [ownerStep] at h
    split at h
    · next g found =>
      split_ifs at h with at_call
      obtain ⟨out, looked, rfl⟩ := Option.map_eq_some_iff.1 h
      split
      · exact hi.moved i (isKeyExpired_mono at_call.2 (live_of_getOnCluster looked))
      · exact hi.moved i trivial
      · exact hi.moved i trivial
    · cases h
  | load i control spare nowMs =>
    simp only [ownerStep] at h
    split at h
    · next g found =>
      split_ifs at h with at_miss
      split at h
      · next loaded =>
        cases h
        exact hi.moved i ((live_of_loadOnMiss at_miss.2.2 loaded).imp_right
          (lt_of_le_of_lt at_miss.2.1))
      · cases h
        exact hi.moved i trivial
    · cases h
  | recheck i =>
    simp only [ownerStep] at h
    split at h
    · next g found =>
      split at h
      · next entry loaded =>
        have allowed := cleared g found entry (by rw [loaded]; rfl)
        unfold Rechecks at allowed
        split at h
        · next existing resident =>
          cases h
          rw [resident] at allowed
          exact hi.moved i allowed
        · next absent =>
          cases h
          rw [absent] at allowed
          obtain ⟨last, nonneg⟩ := allowed
          have live := hi.live g (List.mem_of_getElem? found)
          rw [Read.Live, loaded] at live
          refine ⟨fun k e resident => ?_, forall_mem_set hi.live ?_⟩
          · rw [Engine.get_put] at resident
            split_ifs at resident with same
            · cases resident
              rw [same]
              exact last
            · exact hi.resident k e resident
          · show isKeyExpired entry.ttl g.startedMs = false
            simp only [isKeyExpired, ne_eq, decide_not, Bool.and_eq_false_iff, Bool.not_eq_false',
              decide_eq_true_eq, decide_eq_false_iff_not]
            omega
      · cases h
    · cases h

theorem run {s₀ s : OwnerState} {as : List OwnerAction} (start : s₀.Start)
    (run : Run ownerStep Cleared s₀ as s) : OwnerInv s :=
  run.invariant OwnerInv (.start start) fun _ _ _ hi cleared h => hi.step cleared h

end OwnerInv

/-- The entry after the SET, after the EXPIRE, and after another EXPIRE at two seconds. -/
def setEntry : MemEntry := ⟨[107], [1], 0, 0, 0⟩

end OlricStack.Node
