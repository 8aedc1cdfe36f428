import OlricStack.Node.Acknowledge
import OlricStack.Node.Engine
import OlricStack.Node.Refill

/-!
# SET and EXPIRE on the owner

`putOnCluster` of the dmap fork, from the fence to the answer, with its put conditions, the LRU
eviction, the replication and the durable hook.  Replication writes to memory on its way and may
fail afterwards; the hook is then told that there was no mutation and publishes nothing.  So a SET
that returns an error may leave its value behind (`failed_put_keeps_entry_iff`,
`quorum_failure_leaves_value`).
-/

namespace OlricStack.Node

/-! ## Calls -/

/-- The errors of `putOnCluster`, with their texts. -/
inductive PutError
  | fragment (text : String)
  | leaseExpired
  | ringAlmostFull
  | keyFound
  | keyNotFound
  /-- "nothing found to expire with LRU" -/
  | nothingToExpire
  /-- the error of a call to another member -/
  | member (text : String)
  | serverGone
  | writeQuorum
  /-- "invalid replication mode: ..." -/
  | invalidReplicationMode (mode : ℤ)
  | publish (err : PublishError)
deriving DecidableEq, Repr

/-- `PutConfig`, with the expiry options in nanoseconds. -/
structure PutConfig where
  hasNX : Bool
  hasXX : Bool
  ex : Option ℤ
  px : Option ℤ
  exat : Option ℤ
  pxat : Option ℤ
  onlyUpdateTTL : Bool
deriving DecidableEq, Repr

/-- The request. -/
structure PutEnv where
  putConfig : PutConfig
  hkey : ℕ
  timestamp : ℤ
  dmap : Bytes
  key : Bytes
  value : Bytes
  timeout : ℤ
deriving DecidableEq, Repr

/-- The settings of a DMap that writing a key uses. -/
structure DMapConfig where
  ttlDuration : ℤ
  lruEviction : Bool
  maxKeys : ℤ
  maxInuse : ℤ
  lruSamples : ℕ
deriving DecidableEq, Repr

/-- The settings of the cluster that writing a key uses. -/
structure ServerConfig where
  replicaCount : ℤ
  writeQuorum : ℤ
  replicationMode : ℤ
  dmap : Option DMapConfig
deriving DecidableEq, Repr

/-- `MinimumReplicaCount`. -/
def minimumReplicaCount : ℤ := 1

/-- `SyncReplicationMode`. -/
def syncReplicationMode : ℤ := 0

/-- `AsyncReplicationMode`. -/
def asyncReplicationMode : ℤ := 1

/-- What comes of a call to another member: the error of `rc.Process`, or that of the command. -/
inductive Reply
  | ok
  | process (text : String)
  | command (text : String)
deriving DecidableEq, Repr

/-- The error that a backup's answer is. -/
def Reply.err : Reply → Option PutError
  | .ok => none
  | .process text => some (.member text)
  | .command text => some (.member text)

/-- A backup owner as the loops over the owners meet it: whether the server is alive at its turn,
and its reply. -/
structure Backup where
  alive : Bool
  reply : Reply
deriving DecidableEq, Repr

/-- One turn of `evictKeyWithLRU`.  The order of `Range` and the order that `sort.Slice` gives to
equals are not determined: `sample` is what `Range` yields, `victim` the first after the sort. -/
structure Eviction where
  sample : List ℕ
  victim : ℕ
  previousOwners : List Reply
  backups : List Reply
deriving DecidableEq, Repr

/-- What the call meets. -/
structure PutScript where
  /-- the error of `loadOrCreateFragment` -/
  fragmentErr : Option String
  preparedAt : ℤ
  /-- the lease, the clock and the room in the ring at `BeforeSet` or `BeforeExpire` -/
  leaseBefore : Lease
  beforeMs : ℤ
  room : Bool
  /-- the lease and the clock at `VerifyAfterLock` -/
  leaseLocked : Lease
  lockedMs : ℤ
  checkedMs : ℤ
  ownedPartitionCount : ℕ
  /-- the eviction for `MaxKeys` and the one for `MaxInuse` -/
  keysEviction : Eviction
  inuseEviction : Eviction
  backups : List Backup
  publish : Script

/-- A call of `putOnCluster`; `engine` is the fragment's storage when the call gets the lock. -/
structure PutCall where
  config : ServerConfig
  env : PutEnv
  hook : Hook
  engine : Engine
  io : PutScript

/-- A call that has returned. -/
structure PutReturned where
  err : Option PutError
  engine : Engine
  hook : Hook
  effects : List Effect

/-! ## The entry -/

/-- The `int64` sum of two durations in nanoseconds, as milliseconds. -/
def addMs (a b : ℤ) : ℤ := ((a + b).bmod 18446744073709551616).tdiv 1000000

/-- `prepareTTL`: the deadline in Unix milliseconds, zero for none. -/
def prepareTTL (c : PutConfig) (timeout nowUnixNano : ℤ) : ℤ :=
  match c.ex, c.px, c.exat, c.pxat with
  | some ns, _, _, _ => addMs ns nowUnixNano
  | none, some ns, _, _ => addMs ns nowUnixNano
  | none, none, some ns, _ => ns.tdiv 1000000
  | none, none, none, some ns => ns.tdiv 1000000
  | none, none, none, none => if timeout ≠ 0 then addMs timeout nowUnixNano else 0

namespace PutCall

variable (c : PutCall)

/-- The timeout of the request, or else that of the dmap. -/
def timeout : ℤ :=
  match c.config.dmap with
  | some d => if d.ttlDuration ≠ 0 ∧ c.env.timeout = 0 then d.ttlDuration else c.env.timeout
  | none => c.env.timeout

/-- `prepareEntry`. -/
def prepareEntry : MemEntry where
  key := c.env.key
  value := c.env.value
  ttl := prepareTTL c.env.putConfig c.timeout c.io.preparedAt
  timestamp := c.env.timestamp
  lastAccess := 0

/-! ## The durable hook before the mutation -/

/-- The operation that the durability hook is called with. -/
def operation (entry : MemEntry) : DurableOperation :=
  ⟨c.env.dmap, c.env.key, c.env.hkey, some entry.stored, 0, 0⟩

/-- `BeforeSet` and `BeforeExpire`. -/
def before (op : DurableOperation) : Except PutError DurableOperation :=
  match c.io.leaseBefore.snapshotForWrite c.io.beforeMs with
  | none => .error .leaseExpired
  | some (g, e) =>
    if c.io.room then .ok { op with fenceGeneration := g, fenceEpoch := e }
    else .error .ringAlmostFull

/-! ## Conditions and eviction -/

/-- `checkPutConditions`: an expired entry counts for XX and not for NX. -/
def checkPutConditions : Option PutError :=
  let found := c.engine.get c.env.hkey
  let live := found.any fun entry => !isKeyExpired entry.ttl c.io.checkedMs
  if c.env.putConfig.hasNX && live then some .keyFound
  else if c.env.putConfig.hasXX && found.isNone then some .keyNotFound
  else none

/-- The calls of `deleteOnCluster`: the previous owners one after the other, then, if there are
replicas, the backups. -/
def deleteErr (v : Eviction) : Option PutError :=
  (v.previousOwners.findSome? Reply.err).or
    (if c.config.replicaCount ≠ 0 then v.backups.findSome? Reply.err else none)

/-- The sample is one that `Range` can yield, and the victim is the least recently used of it. -/
def Sampled (lruSamples : ℕ) (m : Engine) (v : Eviction) : Prop :=
  v.sample.Nodup ∧ (∀ k ∈ v.sample, m.check k) ∧
    v.sample.length = min (lruSamples - 1) m.length ∧
    (v.sample ≠ [] → v.victim ∈ v.sample ∧
      ∀ k ∈ v.sample, m.getLastAccess v.victim ≤ m.getLastAccess k)

instance (lruSamples : ℕ) (m : Engine) (v : Eviction) : Decidable (Sampled lruSamples m v) := by
  unfold Sampled
  infer_instance

/-- `evictKeyWithLRU`; `none` if this is not how the sample can come out. -/
def evictKeyWithLRU (lruSamples : ℕ) (m : Engine) (v : Eviction) :
    Option (Option PutError × Engine) :=
  if Sampled lruSamples m v then
    if v.sample = [] then some (some .nothingToExpire, m)
    else
      match c.deleteErr v with
      | some err => some (some err, m)
      | none => some (none, m.delete v.victim)
  else none

/-- The evictions that `setLRUEvictionStats` finds due.  It reads the statistics once, before the
first of them. -/
def due (d : DMapConfig) : List Eviction :=
  let owned := c.io.ownedPartitionCount
  let st := c.engine
  if owned = 0 then []
  else
    (if d.maxKeys > 0 ∧ st.length > 0 ∧ st.length ≥ d.maxKeys.tdiv owned then [c.io.keysEviction]
      else []) ++
    (if d.maxInuse > 0 ∧ st.inuse > 0 ∧ st.inuse ≥ d.maxInuse.tdiv owned then [c.io.inuseEviction]
      else [])

/-- The evictions in a row, up to the first error. -/
def evictAll (lruSamples : ℕ) (m : Engine) : List Eviction → Option (Option PutError × Engine)
  | [] => some (none, m)
  | v :: rest =>
    match c.evictKeyWithLRU lruSamples m v with
    | some (none, m') => evictAll lruSamples m' rest
    | out => out

/-- `setLRUEvictionStats`, if the dmap has the LRU policy. -/
def setLRUEvictionStats : Option (Option PutError × Engine) :=
  match c.config.dmap with
  | some d =>
    if d.lruEviction then c.evictAll d.lruSamples c.engine (c.due d) else some (none, c.engine)
  | none => some (none, c.engine)

/-! ## Replication -/

/-- `putEntryOnFragment`. -/
def putEntryOnFragment (m : Engine) : Option PutError × Engine :=
  if c.env.putConfig.onlyUpdateTTL then
    match m.updateTTL c.env.hkey c.prepareEntry with
    | none => (some .keyNotFound, m)
    | some m' => (none, m')
  else (none, m.put c.env.hkey c.prepareEntry)

/-- `asyncPutOnCluster`, which answers when the owner has stored. -/
def asyncPutOnCluster (m : Engine) : Option PutError × Engine :=
  match c.putEntryOnFragment m with
  | (some err, m') => (some err, m')
  | (none, m') => (if c.io.backups.all Backup.alive then none else some .serverGone, m')

/-- The loop over the backup owners: how many have stored the entry, or the error of a call. -/
def replicate : List Backup → Except PutError ℕ
  | [] => .ok 0
  | b :: rest =>
    match b.reply with
    | .process text => .error (.member text)
    | .command _ => replicate rest
    | .ok => (replicate rest).map (· + 1)

/-- `syncPutOnCluster`: the backups store first, and then the owner. -/
def syncPutOnCluster (m : Engine) : Option PutError × Engine :=
  match replicate c.io.backups with
  | .error err => (some err, m)
  | .ok successful =>
    match c.putEntryOnFragment m with
    | (err, m') =>
      let successful := if err.isNone then successful + 1 else successful
      (if successful ≥ c.config.writeQuorum then none else some .writeQuorum, m')

/-- `putOnClusterAfterDurable`. -/
def putOnClusterAfterDurable (m : Engine) : Option PutError × Engine :=
  if c.config.replicaCount > minimumReplicaCount then
    if c.config.replicationMode = asyncReplicationMode then c.asyncPutOnCluster m
    else if c.config.replicationMode = syncReplicationMode then c.syncPutOnCluster m
    else (some (.invalidReplicationMode c.config.replicationMode), m)
  else c.putEntryOnFragment m

/-! ## The call -/

/-- The call returns before the mutation; a SET aborts what it prepared. -/
def abort (prepared : Option DurableOperation) (err : PutError) (m : Engine) : Option PutReturned :=
  match prepared with
  | none => some ⟨some err, m, c.hook, []⟩
  | some op =>
    (c.hook.afterSet op true c.io.publish).map fun after => ⟨some err, m, after.hook, after.effects⟩

/-- The hook is told how the mutation went; the error of the mutation comes before its own. -/
def finish (after : Bool → Script → Option Returned) (mutation : Option PutError × Engine) :
    Option PutReturned :=
  (after mutation.1.isSome c.io.publish).map fun out =>
    let hookErr : Option PutError :=
      match out.result with
      | .ok _ => none
      | .error err => some (.publish err)
    ⟨mutation.1.or hookErr, mutation.2, out.hook, out.effects⟩

/-- EXPIRE, from the look at the resident entry. -/
def expire (m : Engine) : Option PutReturned :=
  match m.get c.env.hkey with
  | none => some ⟨some .keyNotFound, m, c.hook, []⟩
  | some current =>
    match c.before (c.operation (current.touch c.prepareEntry)) with
    | .error err => some ⟨some err, m, c.hook, []⟩
    | .ok op => c.finish (c.hook.afterExpire op) (c.putOnClusterAfterDurable m)

/-- The call once it has the fragment lock, with what a SET has prepared. -/
def locked (prepared : Option DurableOperation) : Option PutReturned :=
  match c.checkPutConditions with
  | some err => c.abort prepared err c.engine
  | none =>
    match c.setLRUEvictionStats with
    | none => none
    | some (some err, m) => c.abort prepared err m
    | some (none, m) =>
      match prepared with
      | none => c.expire m
      | some op => c.finish (c.hook.afterSet op) (c.putOnClusterAfterDurable m)

/-- `putOnCluster`; `none` if this is not how a sample of the eviction can come out. -/
def putOnCluster : Option PutReturned :=
  match c.io.fragmentErr with
  | some text => some ⟨some (.fragment text), c.engine, c.hook, []⟩
  | none =>
    if c.env.putConfig.onlyUpdateTTL then c.locked none
    else
      match c.before (c.operation c.prepareEntry) with
      | .error err => some ⟨some err, c.engine, c.hook, []⟩
      | .ok op =>
        if verifyAfterLock c.io.leaseLocked op c.io.lockedMs then c.locked (some op)
        else c.abort (some op) .leaseExpired c.engine

/-! ## Replication, step by step -/

/-- What the local write leaves in place of what it finds. -/
def written (resident : Option MemEntry) : Option MemEntry :=
  if c.env.putConfig.onlyUpdateTTL then resident.map fun entry => entry.touch c.prepareEntry
  else some c.prepareEntry

/-- Replication fails before the local write: a call to a backup owner fails, or there is no such
mode. -/
def FailsBefore : Prop :=
  c.config.replicaCount > minimumReplicaCount ∧
    (c.config.replicationMode = syncReplicationMode ∧
        (∃ b ∈ c.io.backups, ∃ text, b.reply = .process text) ∨
      c.config.replicationMode ≠ syncReplicationMode ∧
        c.config.replicationMode ≠ asyncReplicationMode)

/-- Replication fails after the local write: the server is going down, or too few backup owners have
stored the entry. -/
def FailsAfter : Prop :=
  c.config.replicaCount > minimumReplicaCount ∧
    (c.config.replicationMode = asyncReplicationMode ∧ (∃ b ∈ c.io.backups, b.alive = false) ∨
      c.config.replicationMode = syncReplicationMode ∧
        (∀ b ∈ c.io.backups, ∀ text, b.reply ≠ .process text) ∧
        c.io.backups.countP (fun b => b.reply = .ok) + 1 < c.config.writeQuorum)

variable {c}

theorem FailsAfter.not_failsBefore (after : c.FailsAfter) : ¬c.FailsBefore := by
  rintro ⟨-, ⟨sync, b, hb, text, failed⟩ | ⟨notSync, notAsync⟩⟩
  · rcases after with ⟨-, ⟨async, -⟩ | ⟨-, reached, -⟩⟩
    · rw [async] at sync
      exact absurd sync (by decide)
    · exact reached b hb text failed
  · rcases after with ⟨-, ⟨async, -⟩ | ⟨sync, -⟩⟩
    · exact notAsync async
    · exact notSync sync

theorem replicate_eq_error {bs : List Backup} (h : ∃ b ∈ bs, ∃ text, b.reply = .process text) :
    ∃ err, replicate bs = .error err := by
  induction bs with
  | nil =>
    obtain ⟨b, hb, -⟩ := h
    cases hb
  | cons b rest ih =>
    rw [replicate]
    cases hreply : b.reply with
    | process text => exact ⟨_, rfl⟩
    | command text =>
      obtain ⟨a, ha, text', failed⟩ := h
      rcases List.mem_cons.1 ha with rfl | ha
      · rw [hreply] at failed
        cases failed
      · exact ih ⟨a, ha, text', failed⟩
    | ok =>
      obtain ⟨a, ha, text', failed⟩ := h
      rcases List.mem_cons.1 ha with rfl | ha
      · rw [hreply] at failed
        cases failed
      · obtain ⟨err, same⟩ := ih ⟨a, ha, text', failed⟩
        exact ⟨err, by rw [same]; rfl⟩

theorem replicate_eq_ok {bs : List Backup} (h : ∀ b ∈ bs, ∀ text, b.reply ≠ .process text) :
    replicate bs = .ok (bs.countP fun b => b.reply = .ok) := by
  induction bs with
  | nil => rfl
  | cons b rest ih =>
    have rest_eq := ih fun a ha => h a (.tail b ha)
    rw [replicate]
    cases hreply : b.reply with
    | process text => exact absurd hreply (h b (.head rest) text)
    | command text =>
      rw [List.countP_cons_of_neg (by simp [hreply])]
      exact rest_eq
    | ok =>
      rw [List.countP_cons_of_pos (by simp [hreply])]
      show (replicate rest).map (· + 1) = _
      rw [rest_eq]
      rfl

/-- The local write succeeds where EXPIRE has seen an entry. -/
theorem putEntryOnFragment_spec {m : Engine}
    (present : c.env.putConfig.onlyUpdateTTL = true → m.get c.env.hkey ≠ none) :
    ∃ m', c.putEntryOnFragment m = (none, m') ∧
      m'.get c.env.hkey = c.written (m.get c.env.hkey) := by
  unfold putEntryOnFragment written Engine.updateTTL
  split_ifs with expire
  · obtain ⟨current, hcurrent⟩ := Option.ne_none_iff_exists'.1 (present expire)
    rw [hcurrent]
    exact ⟨_, rfl, Engine.get_put_self _ _ _⟩
  · exact ⟨_, rfl, Engine.get_put_self _ _ _⟩

theorem putOnClusterAfterDurable_spec {m : Engine}
    (present : c.env.putConfig.onlyUpdateTTL = true → m.get c.env.hkey ≠ none) :
    (c.FailsBefore → (c.putOnClusterAfterDurable m).1 ≠ none ∧
      (c.putOnClusterAfterDurable m).2 = m) ∧
    (¬c.FailsBefore →
      (c.putOnClusterAfterDurable m).2.get c.env.hkey = c.written (m.get c.env.hkey) ∧
      ((c.putOnClusterAfterDurable m).1 ≠ none ↔ c.FailsAfter)) := by
  obtain ⟨m', put, hm'⟩ := putEntryOnFragment_spec present
  unfold putOnClusterAfterDurable FailsBefore FailsAfter
  split_ifs with replicas async sync
  · have notSync : asyncReplicationMode ≠ syncReplicationMode := by decide
    rw [asyncPutOnCluster, put, async]
    refine ⟨by simp [notSync], fun _ => ⟨hm', ?_⟩⟩
    simp [replicas, notSync]
  · rw [syncPutOnCluster, sync]
    have notAsync : syncReplicationMode ≠ asyncReplicationMode := by decide
    by_cases failed : ∃ b ∈ c.io.backups, ∃ text, b.reply = .process text
    · obtain ⟨err, same⟩ := replicate_eq_error failed
      rw [same]
      exact ⟨fun _ => ⟨nofun, rfl⟩, fun ok => absurd ⟨replicas, .inl ⟨rfl, failed⟩⟩ ok⟩
    · push Not at failed
      rw [replicate_eq_ok failed, put]
      refine ⟨?_, fun _ => ⟨hm', ?_⟩⟩
      · rintro ⟨-, ⟨-, b, hb, text, eq⟩ | ⟨ne, -⟩⟩
        · exact absurd eq (failed b hb text)
        · exact absurd rfl ne
      · simpa [replicas, notAsync] using fun _ => failed
  · exact ⟨fun _ => ⟨nofun, rfl⟩, fun ok => absurd ⟨replicas, .inr ⟨sync, async⟩⟩ ok⟩
  · rw [put]
    exact ⟨fun before => absurd before.1 replicas, fun _ => ⟨hm', by simp [replicas]⟩⟩

/-! ## Eviction, step by step -/

variable (c)

/-- The eviction removes its victim: there is one, and every member called answers. -/
def Succeeds (v : Eviction) : Prop :=
  v.sample ≠ [] ∧ (∀ r ∈ v.previousOwners, r = .ok) ∧
    (c.config.replicaCount ≠ 0 → ∀ r ∈ v.backups, r = .ok)

instance : DecidablePred c.Succeeds := fun v => by
  unfold Succeeds
  infer_instance

/-- The evictions due in the call. -/
def evictions : List Eviction :=
  match c.config.dmap with
  | some d => if d.lruEviction then c.due d else []
  | none => []

/-- The victims up to the first eviction that fails. -/
def evicted : List ℕ := (c.evictions.takeWhile c.Succeeds).map Eviction.victim

variable {c}

theorem findSome?_err_eq_none_iff {rs : List Reply} :
    rs.findSome? Reply.err = none ↔ ∀ r ∈ rs, r = .ok := by
  rw [List.findSome?_eq_none_iff]
  refine forall₂_congr fun r _ => ?_
  cases r <;> simp [Reply.err]

theorem deleteErr_eq_none_iff {v : Eviction} (nonempty : v.sample ≠ []) :
    c.deleteErr v = none ↔ c.Succeeds v := by
  rw [deleteErr, Option.or_eq_none_iff, findSome?_err_eq_none_iff]
  unfold Succeeds
  split_ifs with replicas
  · rw [findSome?_err_eq_none_iff]
    exact ⟨fun ⟨a, b⟩ => ⟨nonempty, a, fun _ => b⟩, fun ⟨_, a, b⟩ => ⟨a, b replicas⟩⟩
  · exact ⟨fun ⟨a, _⟩ => ⟨nonempty, a, fun h => absurd h replicas⟩, fun ⟨_, a, _⟩ => ⟨a, rfl⟩⟩

theorem evictKeyWithLRU_spec {n : ℕ} {m m' : Engine} {v : Eviction} {err : Option PutError}
    (h : c.evictKeyWithLRU n m v = some (err, m')) :
    (c.Succeeds v → err = none ∧ m' = m.delete v.victim ∧ m.get v.victim ≠ none) ∧
      (¬c.Succeeds v → err ≠ none ∧ m' = m) := by
  unfold evictKeyWithLRU at h
  split_ifs at h with sampled empty
  · cases h
    exact ⟨fun ok => absurd empty ok.1, fun _ => ⟨nofun, rfl⟩⟩
  · obtain ⟨-, present, -, least⟩ := sampled
    split at h
    · next failed =>
      cases h
      refine ⟨fun ok => ?_, fun _ => ⟨nofun, rfl⟩⟩
      rw [(deleteErr_eq_none_iff empty).2 ok] at failed
      cases failed
    · next ok =>
      cases h
      refine ⟨fun _ => ⟨rfl, rfl, ?_⟩, fun bad => absurd ((deleteErr_eq_none_iff empty).1 ok) bad⟩
      rw [Ne, m.get_eq_none_iff, present _ (least empty).1]
      exact Bool.noConfusion

/-- What evictions leave of a key: a victim was resident and is gone, any other key is as it was. -/
structure EvictedBy (victims : List ℕ) (m m' : Engine) (k : ℕ) : Prop where
  gone : k ∈ victims → m'.get k = none ∧ m.get k ≠ none
  kept : k ∉ victims → m'.get k = m.get k

/-- The evictions remove their victims, all of them resident, up to the first that fails. -/
theorem evictAll_spec {n : ℕ} {m m' : Engine} {vs : List Eviction} {err : Option PutError}
    (h : c.evictAll n m vs = some (err, m')) :
    (err = none ↔ ∀ v ∈ vs, c.Succeeds v) ∧
      ∀ k, EvictedBy ((vs.takeWhile c.Succeeds).map Eviction.victim) m m' k := by
  induction vs generalizing m with
  | nil =>
    cases h
    exact ⟨by simp, fun k => ⟨nofun, fun _ => rfl⟩⟩
  | cons v rest ih =>
    rw [evictAll] at h
    by_cases ok : c.Succeeds v
    · rw [List.takeWhile_cons_of_pos (by simpa using ok), List.map_cons]
      split at h
      · next m₁ first =>
        obtain ⟨-, removed, resident⟩ := (evictKeyWithLRU_spec first).1 ok
        obtain ⟨all, each⟩ := ih h
        refine ⟨by rw [all, List.forall_mem_cons, and_iff_right ok], fun k => ?_⟩
        obtain ⟨gone, kept⟩ := each k
        rw [removed, Engine.get_delete] at gone kept
        by_cases same : k = v.victim
        · subst same
          simp only [if_true] at gone kept
          refine ⟨fun _ => ⟨?_, resident⟩, fun out => absurd (.head _) out⟩
          by_cases again : v.victim ∈ (rest.takeWhile c.Succeeds).map Eviction.victim
          · exact (gone again).1
          · exact kept again
        · rw [if_neg same] at gone kept
          refine ⟨fun victim => gone ?_, fun other => kept ?_⟩
          · exact (List.mem_cons.1 victim).resolve_left same
          · exact fun victim => other (.tail _ victim)
      · next out failed =>
        exact absurd h fun h => failed m' (by rw [← ((evictKeyWithLRU_spec h).1 ok).1, h])
    · rw [List.takeWhile_cons_of_neg (by simpa using ok)]
      split at h
      · next m₁ first => exact absurd rfl ((evictKeyWithLRU_spec first).2 ok).1
      · next out failed =>
        obtain ⟨bad, same⟩ := (evictKeyWithLRU_spec h).2 ok
        refine ⟨⟨fun none => absurd none bad, fun all => absurd (all v (.head rest)) ok⟩,
          fun k => ?_⟩
        exact ⟨nofun, fun _ => by rw [same]⟩

theorem setLRUEvictionStats_spec {m : Engine} {err : Option PutError}
    (h : c.setLRUEvictionStats = some (err, m)) :
    (err = none ↔ ∀ v ∈ c.evictions, c.Succeeds v) ∧
      ∀ k, EvictedBy c.evicted c.engine m k := by
  unfold setLRUEvictionStats at h
  unfold evicted evictions
  split at h
  · split_ifs at h with lru
    · rw [if_pos lru]
      exact evictAll_spec h
    · cases h
      rw [if_neg lru]
      exact ⟨by simp, fun k => ⟨nofun, fun _ => rfl⟩⟩
  · cases h
    exact ⟨by simp, fun k => ⟨nofun, fun _ => rfl⟩⟩

/-! ## Errors that leave the resident entry alone -/

/-- If the call returns an error and `OnFatal` has not been invoked, the key has the entry it
had. -/
def Keeps (c : PutCall) (r : PutReturned) : Prop :=
  r.err ≠ none → r.hook.fatalCalled = false → r.engine.get c.env.hkey = c.engine.get c.env.hkey

/-- There are a lease and room in the ring for the operation. -/
def Fenced (c : PutCall) : Prop :=
  c.io.beforeMs < c.io.leaseBefore.validUntilUnixMs ∧ c.io.room = true

/-- The call gets to the evictions: a SET has a fence that still stands under the lock, and the put
conditions hold. -/
def Admitted (c : PutCall) : Prop :=
  c.io.fragmentErr = none ∧ c.checkPutConditions = none ∧
    (c.env.putConfig.onlyUpdateTTL = false → c.Fenced ∧
      (c.io.leaseBefore.generation = 0 ∨ c.io.leaseLocked.verifyFence c.io.leaseBefore.generation
        c.io.leaseBefore.epoch c.io.lockedMs = true))

/-- The evictions take the key only from a SET that then writes it, and replication does not fail
after a local write that changes the entry. -/
def Clean (c : PutCall) : Prop :=
  (c.env.hkey ∈ c.evicted → c.env.putConfig.onlyUpdateTTL = false ∧
    (∀ v ∈ c.evictions, c.Succeeds v) ∧ ¬c.FailsBefore) ∧
  ((∀ v ∈ c.evictions, c.Succeeds v) → (c.env.putConfig.onlyUpdateTTL = true → c.Fenced) →
    c.FailsAfter → c.written (c.engine.get c.env.hkey) = c.engine.get c.env.hkey)

/-- `BeforeSet` and `BeforeExpire` answer by the lease and the room. -/
theorem before_cases (op : DurableOperation) :
    (¬c.Fenced ∧ ∃ err, c.before op = .error err) ∨
      c.Fenced ∧ c.before op = .ok { op with
        fenceGeneration := c.io.leaseBefore.generation, fenceEpoch := c.io.leaseBefore.epoch } := by
  unfold before Fenced Lease.snapshotForWrite
  by_cases expired : c.io.leaseBefore.validUntilUnixMs ≤ c.io.beforeMs
  · rw [if_pos expired]
    exact .inl ⟨fun fenced => absurd fenced.1 (not_lt.2 expired), _, rfl⟩
  · rw [if_neg expired]
    rcases hroom : c.io.room with _ | _
    · exact .inl ⟨fun fenced => Bool.noConfusion fenced.2, _, rfl⟩
    · exact .inr ⟨⟨not_le.1 expired, rfl⟩, rfl⟩

/-- With `OnFatal` configured, the call fails without it exactly if the mutation has failed. -/
theorem finish_spec (configured : c.hook.hasOnFatal = true) (kind : Op) {op : DurableOperation}
    {mutation : Option PutError × Engine} {r : PutReturned}
    (h : c.finish (fun failed io => c.hook.call ⟨kind, op, failed, io⟩) mutation = some r) :
    r.engine = mutation.2 ∧ (r.err ≠ none ∧ r.hook.fatalCalled = false ↔
      mutation.1 ≠ none ∧ c.hook.fatalCalled = false) := by
  obtain ⟨out, called, rfl⟩ := Option.map_eq_some_iff.1 h
  obtain ⟨-, -, flag⟩ := Hook.call_fatals configured called
  refine ⟨rfl, ?_⟩
  rcases hmutation : mutation.1 with _ | err
  · -- the mutation is there: an error is the hook's, and sets the flag
    rcases hresult : out.result with err | _
    · rw [hresult] at flag
      simp [flag, Except.isOk, Except.toBool]
    · simp
  · rw [hmutation] at called
    rw [Hook.call_of_mutationErr called rfl]
    simp

theorem keeps_refused (err : PutError) (m : Engine) (effects : List Effect) :
    c.Keeps ⟨some err, m, c.hook, effects⟩ ↔
      c.hook.fatalCalled = true ∨ m.get c.env.hkey = c.engine.get c.env.hkey := by
  unfold Keeps
  rcases c.hook.fatalCalled with _ | _ <;> simp

theorem keeps_abort {prepared : Option DurableOperation} {err : PutError} {m : Engine}
    {r : PutReturned} (h : c.abort prepared err m = some r) :
    c.Keeps r ↔ c.hook.fatalCalled = true ∨ m.get c.env.hkey = c.engine.get c.env.hkey := by
  cases prepared with
  | none =>
    cases h
    exact keeps_refused err m []
  | some op =>
    cases h
    exact keeps_refused err m []

theorem keeps_finish (configured : c.hook.hasOnFatal = true) (kind : Op) {op : DurableOperation}
    {mutation : Option PutError × Engine} {r : PutReturned}
    (h : c.finish (fun failed io => c.hook.call ⟨kind, op, failed, io⟩) mutation = some r) :
    c.Keeps r ↔ c.hook.fatalCalled = true ∨
      (mutation.1 ≠ none → mutation.2.get c.env.hkey = c.engine.get c.env.hkey) := by
  obtain ⟨same, silent⟩ := finish_spec configured kind h
  unfold Keeps
  rw [same, ← and_imp, silent]
  rcases c.hook.fatalCalled with _ | _ <;> simp

/-- After the evictions, a failed mutation leaves the key as it was if the key was not evicted and
nothing was written, or if what was written is what was there. -/
theorem mutation_keeps_iff {m : Engine}
    (evictions : EvictedBy c.evicted c.engine m c.env.hkey)
    (present : c.env.putConfig.onlyUpdateTTL = true → m.get c.env.hkey ≠ none) :
    ((c.putOnClusterAfterDurable m).1 ≠ none →
      (c.putOnClusterAfterDurable m).2.get c.env.hkey = c.engine.get c.env.hkey) ↔
    (c.FailsBefore → c.env.hkey ∉ c.evicted) ∧
      (c.FailsAfter → c.written (m.get c.env.hkey) = c.engine.get c.env.hkey) := by
  obtain ⟨gone, kept⟩ := evictions
  obtain ⟨failing, writing⟩ := putOnClusterAfterDurable_spec present
  by_cases before : c.FailsBefore
  · obtain ⟨failed, same⟩ := failing before
    have notAfter : ¬c.FailsAfter := fun after => after.not_failsBefore before
    simp only [failed, same, before, notAfter, ne_eq, not_false_eq_true, true_implies,
      false_implies, and_true]
    constructor
    · intro same evicted
      exact (gone evicted).2 (same ▸ (gone evicted).1)
    · exact kept
  · obtain ⟨put, failed⟩ := writing before
    simp only [put, failed, before, false_implies, true_and]

/-- EXPIRE after the evictions. -/
theorem keeps_expire (configured : c.hook.hasOnFatal = true) {m : Engine} {r : PutReturned}
    (isExpire : c.env.putConfig.onlyUpdateTTL = true)
    (all : ∀ v ∈ c.evictions, c.Succeeds v)
    (evictions : EvictedBy c.evicted c.engine m c.env.hkey)
    (h : c.expire m = some r) : c.Keeps r ↔ c.hook.fatalCalled = true ∨ c.Clean := by
  unfold expire at h
  split at h
  · next absent =>
    cases h
    rw [keeps_refused]
    refine or_congr_right ?_
    by_cases evicted : c.env.hkey ∈ c.evicted
    · rw [absent]
      constructor
      · exact fun same => absurd same.symm (evictions.gone evicted).2
      · exact fun clean => Bool.noConfusion (isExpire.symm.trans (clean.1 evicted).1)
    · have same := evictions.kept evicted
      refine ⟨fun _ => ⟨fun h => absurd h evicted, fun _ _ _ => ?_⟩, fun _ => same⟩
      rw [← same, absent, written, if_pos isExpire]
      rfl
  · next current resident =>
    have kept : c.env.hkey ∉ c.evicted := fun evicted => by
      rw [(evictions.gone evicted).1] at resident
      cases resident
    have same := evictions.kept kept
    rcases before_cases (c.operation (current.touch c.prepareEntry)) with
      ⟨unfenced, err, refused⟩ | ⟨fenced, granted⟩
    · rw [refused] at h
      cases h
      rw [keeps_refused]
      exact or_congr_right ⟨fun _ => ⟨fun h => absurd h kept,
        fun _ fenced => absurd (fenced isExpire) unfenced⟩, fun _ => same⟩
    · rw [granted] at h
      rw [keeps_finish configured .expire h,
        mutation_keeps_iff evictions fun _ => by simp [resident], same]
      refine or_congr_right ⟨?_, ?_⟩
      · exact fun ⟨_, after⟩ => ⟨fun h => absurd h kept, fun _ _ => after⟩
      · exact fun clean => ⟨fun _ => kept, clean.2 all fun _ => fenced⟩

/-- SET after the evictions. -/
theorem keeps_set (configured : c.hook.hasOnFatal = true) {m : Engine} {r : PutReturned}
    {op : DurableOperation} (isSet : c.env.putConfig.onlyUpdateTTL = false)
    (all : ∀ v ∈ c.evictions, c.Succeeds v)
    (evictions : EvictedBy c.evicted c.engine m c.env.hkey)
    (h : c.finish (c.hook.afterSet op) (c.putOnClusterAfterDurable m) = some r) :
    c.Keeps r ↔ c.hook.fatalCalled = true ∨ c.Clean := by
  have overwrites : ∀ resident, c.written resident = some c.prepareEntry := by
    intro resident
    rw [written, isSet]
    rfl
  rw [keeps_finish configured .set h,
    mutation_keeps_iff evictions fun isExpire => by simp [isSet] at isExpire]
  refine or_congr_right ⟨?_, ?_⟩
  · rintro ⟨before, after⟩
    refine ⟨fun evicted => ⟨isSet, all, fun fails => before fails evicted⟩, fun _ _ fails => ?_⟩
    rw [overwrites, ← after fails, overwrites]
  · rintro ⟨evicted, after⟩
    refine ⟨fun before h => (evicted h).2.2 before, fun fails => ?_⟩
    rw [overwrites, ← after all (fun isExpire => by simp [isSet] at isExpire) fails, overwrites]

/-- The call from the lock on. -/
theorem keeps_locked (configured : c.hook.hasOnFatal = true) {r : PutReturned}
    {prepared : Option DurableOperation}
    (isExpire : c.env.putConfig.onlyUpdateTTL = prepared.isNone)
    (conditions : c.checkPutConditions = none) (h : c.locked prepared = some r) :
    c.Keeps r ↔ c.hook.fatalCalled = true ∨ c.Clean := by
  rw [locked, conditions] at h
  dsimp only at h
  split at h
  · cases h
  · next err m failed =>
    obtain ⟨all, each⟩ := setLRUEvictionStats_spec failed
    have stopped : ¬∀ v ∈ c.evictions, c.Succeeds v := fun h => nomatch all.2 h
    rw [keeps_abort h]
    refine or_congr_right ⟨fun same => ⟨fun evicted => ?_, fun h => absurd h stopped⟩,
      fun clean => ?_⟩
    · obtain ⟨gone, resident⟩ := (each _).gone evicted
      exact absurd (same.symm.trans gone) resident
    · exact (each _).kept fun evicted => stopped (clean.1 evicted).2.1
  · next m done =>
    obtain ⟨all, each⟩ := setLRUEvictionStats_spec done
    cases prepared with
    | none => exact keeps_expire configured isExpire (all.1 rfl) (each _) h
    | some op => exact keeps_set configured isExpire (all.1 rfl) (each _) h

/-- A call gets the lock and passes the put conditions, or has not touched the engine. -/
theorem putOnCluster_cases {r : PutReturned} (ret : c.putOnCluster = some r) :
    (c.Admitted ∧ ∃ prepared : Option DurableOperation,
      c.env.putConfig.onlyUpdateTTL = prepared.isNone ∧ c.locked prepared = some r) ∨
      ¬c.Admitted ∧ c.Keeps r := by
  -- the put conditions refuse under the lock
  have unmet : ∀ {prepared err}, c.checkPutConditions = some err → c.locked prepared = some r →
      ¬c.Admitted ∧ c.Keeps r := by
    intro prepared err unmet h
    rw [locked, unmet] at h
    refine ⟨fun admitted => ?_, (keeps_abort h).2 (.inr rfl)⟩
    rw [admitted.2.1] at unmet
    cases unmet
  unfold putOnCluster at ret
  split at ret
  · next text failed =>
    cases ret
    refine .inr ⟨fun admitted => ?_, (keeps_refused _ _ _).2 (.inr rfl)⟩
    rw [admitted.1] at failed
    cases failed
  · next loaded =>
    split at ret
    · next isExpire =>
      cases conditions : c.checkPutConditions with
      | some err => exact .inr (unmet conditions ret)
      | none =>
        refine .inl ⟨⟨loaded, conditions, fun isSet => ?_⟩, none, isExpire, ret⟩
        rw [isExpire] at isSet
        cases isSet
    · next isSet =>
      have isSet := Bool.eq_false_iff.2 isSet
      rcases before_cases (c.operation c.prepareEntry) with ⟨unfenced, err, refused⟩ |
        ⟨fenced, granted⟩
      · rw [refused] at ret
        cases ret
        exact .inr ⟨fun admitted => unfenced (admitted.2.2 isSet).1,
          (keeps_refused _ _ _).2 (.inr rfl)⟩
      · rw [granted] at ret
        dsimp only at ret
        split at ret
        · next verified =>
          cases conditions : c.checkPutConditions with
          | some err => exact .inr (unmet conditions ret)
          | none =>
            refine .inl ⟨⟨loaded, conditions, fun _ => ⟨fenced, ?_⟩⟩, some _, isSet, ret⟩
            simpa [verifyAfterLock] using verified
        · next moved =>
          refine .inr ⟨fun admitted => moved ?_, (keeps_abort ret).2 (.inr rfl)⟩
          simpa [verifyAfterLock] using (admitted.2.2 isSet).2

end PutCall

/-- A SET or EXPIRE that returns an error without `OnFatal` leaves the resident entry as it was
exactly if it is refused before the evictions, or the evictions do not take the key from under it
and replication does not fail after the local write, unless the write has changed nothing. -/
theorem failed_put_keeps_entry_iff {c : PutCall} {r : PutReturned}
    (configured : c.hook.hasOnFatal = true) (ret : c.putOnCluster = some r) :
    (r.err ≠ none → r.hook.fatalCalled = false →
      r.engine.get c.env.hkey = c.engine.get c.env.hkey) ↔
    c.hook.fatalCalled = true ∨ ¬c.Admitted ∨ c.Clean := by
  rcases PutCall.putOnCluster_cases ret with ⟨admitted, prepared, isExpire, h⟩ | ⟨refused, keeps⟩
  · rw [or_iff_right (not_not.2 admitted)]
    exact PutCall.keeps_locked configured isExpire admitted.2.1 h
  · exact ⟨fun _ => .inr (.inl refused), fun _ => keeps⟩

/-- A SET of key 9, which is resident, with a quorum of two; the lease is valid and the ring has
room. -/
def quorumCall (backups : List Backup) : PutCall where
  config := ⟨2, 2, syncReplicationMode, none⟩
  env := ⟨⟨false, false, none, none, none, none, false⟩, 9, 50, [100], [107], [2], 0⟩
  hook := ⟨[7], true, 5000000000, true, false⟩
  engine := Engine.put .empty 9 ⟨[107], [1], 0, 40, 0⟩
  io :=
    { fragmentErr := none
      preparedAt := 0
      leaseBefore := ⟨1, 1, 1000⟩
      beforeMs := 0
      room := true
      leaseLocked := ⟨1, 1, 1000⟩
      lockedMs := 0
      checkedMs := 0
      ownedPartitionCount := 1
      keysEviction := ⟨[], 0, [], []⟩
      inuseEviction := ⟨[], 0, [], []⟩
      backups := backups
      publish := ⟨.ok ⟨1, 1, 1⟩, 0, 0, [⟨none, 0, false⟩]⟩ }

/-- The backup owner cannot be reached: the SET fails before the local write. -/
theorem failed_put_keeps_entry_unreachable :
    ∃ r, (quorumCall [⟨true, .process "connection refused"⟩]).putOnCluster = some r ∧
      r.err = some (.member "connection refused") ∧
      r.engine.get 9 = some ⟨[107], [1], 0, 40, 0⟩ := by
  refine ⟨_, rfl, rfl, ?_⟩
  refine (failed_put_keeps_entry_iff (c := quorumCall [⟨true, .process "connection refused"⟩])
    rfl rfl).2 (.inr (.inr ⟨nofun, fun _ _ after => ?_⟩)) nofun rfl
  exact absurd ⟨by decide, .inl ⟨rfl, _, .head _, _, rfl⟩⟩ after.not_failsBefore

/-- There is no backup owner, and the quorum is missed.  The SET returns an error, nothing is
logged, `OnFatal` is not invoked, and the new value is in memory. -/
theorem quorum_failure_leaves_value :
    ∃ r, (quorumCall []).putOnCluster = some r ∧ r.err = some .writeQuorum ∧
      r.hook.fatalCalled = false ∧ appended r.effects = [] ∧
      (quorumCall []).engine.get 9 = some ⟨[107], [1], 0, 40, 0⟩ ∧
      r.engine.get 9 = some ⟨[107], [2], 0, 50, 0⟩ := by
  exact ⟨_, rfl, rfl, rfl, rfl, by decide, by decide⟩

end OlricStack.Node
