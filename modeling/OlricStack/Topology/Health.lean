import OlricStack.Topology.Replacement

/-!
# Recovery from a failed save

`EpochError` is set when an epoch cannot be saved and taken back by the next save that succeeds.
The bookworm, which saves at every tick, looks at the flag first and skips its tick while it is
set.  So when nothing changes in a stack, one failed save is the last one: the flag stays, nobody is
sent anything, and `watchEpochHealth` of `cmd/watchdog/main.go` ends the process
(`quiet_stack_healthy_until_save_fails`, `one_failed_save_terminates`).
-/

namespace OlricStack

namespace Watchdog.Node

/-! ## Nodes that do not change -/

theorem prune_of_inTime {n : Node} {suspectAfter expireAfter now : ℤ}
    (suspect : now - n.lastHeartbeat ≤ suspectAfter)
    (expire : now - n.lastHeartbeat ≤ expireAfter) :
    n.prune suspectAfter expireAfter now = (some n, false) := by
  unfold prune
  dsimp only
  rw [if_neg (not_lt.2 expire), if_neg (not_lt.2 suspect)]

/-- Whether the state changes depends on the state alone. -/
theorem applyHeartbeatState_changed {n n' : Node} (same : n'.state = n.state) (state : NodeState) :
    (n'.applyHeartbeatState state).2 = (n.applyHeartbeatState state).2 := by
  have moved (event : NodeEvent) : (n'.transition event).2 = (n.transition event).2 := by
    unfold transition
    rw [same]
    split <;> rfl
  unfold applyHeartbeatState
  split <;> exact moved _

theorem heartbeat_unchanged_of_same {n : Node} {obs : HeartbeatObservation}
    (incarnation : n.incarnation = obs.incarnation) (podName : n.podName = obs.podName)
    (podIP : n.podIP = obs.podIP) (version : n.protocolVersion = obs.protocolVersion)
    (state : (n.applyHeartbeatState obs.reportedState).2 = false) :
    (n.heartbeat obs).2 = false := by
  unfold heartbeat
  dsimp only
  rw [if_neg (by omega)]
  dsimp only
  rw [applyHeartbeatState_changed (n := n), state]
  · simp [incarnation, podName, podIP, version]
  · rfl

end Watchdog.Node

namespace Topology

open Transition Watchdog

/-! ## The process -/

/-- The arguments of `watchEpochHealth`; the interval is in nanoseconds. -/
structure HealthConfig where
  interval : ℤ
  threshold : ℤ
deriving DecidableEq, Repr

/-- `watchEpochHealth` between two polls. -/
structure EpochHealth where
  consecutive : ℤ
  terminated : Bool
deriving DecidableEq, Repr

/-- One poll. -/
def EpochHealth.poll (h : EpochHealth) (threshold : ℤ) (err : Option EpochError) : EpochHealth :=
  if err ≠ none then
    let consecutive := h.consecutive + 1
    { h with consecutive := consecutive, terminated := consecutive ≥ threshold }
  else { h with consecutive := 0 }

/-- The service with its loops, and the watch on its health. -/
structure Process where
  server : Server
  health : EpochHealth

/-- What the server does, and the polls of its health. -/
inductive ProcessAction
  | server (a : ServerAction)
  | poll

/-- The action is a poll. -/
def ProcessAction.isPoll : ProcessAction → Bool
  | .server _ => false
  | .poll => true

namespace Process

/-- A server that was not polled yet. -/
def new (cfg : Config) : Process := ⟨.new cfg, ⟨0, false⟩⟩

/-- The service of the process. -/
def service (p : Process) : Service := p.server.service

/-- `watchEpochHealth` returns at once without an interval or a threshold, and when it has called
`terminate`. -/
def step (hc : HealthConfig) (p : Process) : ProcessAction → Option Process
  | .server a => do
    let server ← p.server.step a
    return { p with server := server }
  | .poll =>
    if hc.interval ≤ 0 ∨ hc.threshold ≤ 0 ∨ p.health.terminated then none
    else some { p with health := p.health.poll hc.threshold p.service.epochErr }

end Process

/-! ## One stack -/

namespace Service

theorem unsent_stackIDs : Unsent stackIDs := by
  refine ⟨fun _ _ => rfl, fun _ _ => rfl, fun s i env => ?_⟩
  unfold enqueue
  split
  · rfl
  · split_ifs <;> rfl

theorem mem_stackIDs_setStack {s : Service} {st : StackState} {k : Bytes}
    (h : k ∈ (s.setStack st).stackIDs) : k ∈ s.stackIDs ∨ k = st.stackID := by
  obtain ⟨st', inserted, rfl⟩ := List.mem_map.1 h
  rcases s.stackMap.mem_insert.1 inserted with ⟨old, -⟩ | rfl
  · exact .inl (List.mem_map.2 ⟨st', old, rfl⟩)
  · exact .inr rfl

theorem loadedEpoch_of_load {s : Service} {id : Bytes} {load : Except String ℤ}
    (ok : ((s.stateFor id).loadEpochLocked id load).2 = true) :
    (((s.stateFor id).loadEpochLocked id load).1.stack id).loadedEpoch = true := by
  unfold loadEpochLocked at ok ⊢
  dsimp only at ok ⊢
  split_ifs at ok ⊢ with loaded
  · exact loaded
  · rw [stack_setStack_same]
  · split at ok
    · cases ok
    · rw [stack_setEpochError, stack_record, stack_setStack_same]

/-- There is no other stack, and nodes are there only when its epoch is loaded. -/
structure Single (id : Bytes) (s : Service) : Prop where
  stackIDs : ∀ k ∈ s.stackIDs, k = id
  streams : ∀ dst ∈ s.ids, dst.stackID = id
  loaded : (s.stack id).loadedEpoch = false → (s.stack id).cluster.nodes.toList = []

namespace Single

variable {id : Bytes} {s s' : Service}

theorem congr (h : s.Single id) (stackIDs : s'.stackIDs = s.stackIDs) (ids : s'.ids = s.ids)
    (stack : s'.stack id = s.stack id) : s'.Single id := by
  refine ⟨?_, ?_, ?_⟩
  · rw [stackIDs]
    exact h.stackIDs
  · rw [ids]
    exact h.streams
  · rw [stack]
    exact h.loaded

theorem setStack (h : s.Single id) {st : StackState} (same : st.stackID = id)
    (loaded : st.loadedEpoch = false → st.cluster.nodes.toList = []) :
    (s.setStack st).Single id := by
  refine ⟨fun k member => ?_, h.streams, ?_⟩
  · exact (mem_stackIDs_setStack member).elim (h.stackIDs k) fun new => new.trans same
  · rwa [stack_setStack_of_eq s same]

theorem review (h : s.Single id) {cluster : ClusterState}
    {subscribers : KeyedSet Registration.nodeID} {loadedEpoch : Bool}
    (loaded : loadedEpoch = false → cluster.nodes.toList = []) :
    (s.setStack ⟨(s.stack id).stackID, cluster, subscribers, loadedEpoch⟩).Single id :=
  h.setStack (s.stackID_stack id) loaded

theorem stateFor (h : s.Single id) : (s.stateFor id).Single id := h.review h.loaded

theorem loadEpochLocked (h : s.Single id) (load : Except String ℤ) :
    (s.loadEpochLocked id load).1.Single id := by
  unfold Service.loadEpochLocked
  dsimp only
  split_ifs
  · exact h
  · exact h.review nofun
  · split
    · exact h.congr rfl rfl rfl
    · next epoch =>
      have bumped : (s.setStack { s.stack id with
          loadedEpoch := true
          cluster := (s.stack id).cluster.bumpEpochAtLeast epoch }).Single id := h.review nofun
      exact bumped.congr rfl rfl rfl

theorem broadcastLocked (h : s.Single id) (k : Bytes) (reason : TopologyReason) (io : Broadcast) :
    (s.broadcastLocked k reason io).Single id :=
  h.congr (unsent_stackIDs.broadcastLocked _ _ _ _) (unsent_ids.broadcastLocked _ _ _ _)
    (stack_broadcastLocked _ _ _ _ _)

theorem load (h : s.Single id) (load : Except String ℤ) :
    ((s.stateFor id).loadEpochLocked id load).1.Single id :=
  h.stateFor.loadEpochLocked load

theorem pruneExpiredLocked (h : s.Single id) (now : ℤ) (io : Broadcast) :
    (s.pruneExpiredLocked id now io).Single id := by
  have loaded (unloaded : (s.stack id).loadedEpoch = false) :
      ((s.stack id).cluster.pruneExpired s.cfg.suspectAfter s.cfg.expireAfter
        now).1.nodes.toList = [] :=
    ((s.stack id).cluster.reviewed_pruneExpired _ _ _).empty (h.loaded unloaded)
  unfold Service.pruneExpiredLocked
  dsimp only
  split_ifs
  · exact (h.review loaded).broadcastLocked _ _ _
  · exact h.review loaded

theorem applyHeartbeat (h : s.Single id) {hb : Heartbeat} (same : hb.stackID = id)
    (loaded : (s.stack id).loadedEpoch = true) (i : ℕ) (now : ℤ) (event : Broadcast) :
    (s.applyHeartbeat hb i now event).Single id := by
  subst same
  have registered (cluster : ClusterState) : (s.subscribe hb cluster i).Single hb.stackID := by
    refine ⟨fun k member => ?_, ?_, ?_⟩
    · obtain ⟨subs, eq⟩ := s.subscribe_eq hb cluster i
      rw [eq] at member
      exact (mem_stackIDs_setStack member).elim (h.stackIDs k) fun new =>
        new.trans (s.stackID_stack _)
    · rw [ids_subscribe]
      exact h.streams
    · rw [stack_subscribe]
      dsimp only
      rw [loaded]
      exact nofun
  unfold Service.applyHeartbeat
  dsimp only
  split
  · exact h
  · exact (registered _).broadcastLocked _ _ _
  · split_ifs
    · exact (registered _).congr (unsent_stackIDs.sendLatestLocked _ _ _ _ _)
        (unsent_ids.sendLatestLocked _ _ _ _ _) ((unsent_stack _).sendLatestLocked _ _ _ _ _)
    · exact registered _

theorem registerHeartbeat (h : s.Single id) {hb : Heartbeat} (same : hb.stackID = id) (i : ℕ)
    (io : HeartbeatScript) : (s.registerHeartbeat hb i io).Single id := by
  subst same
  have loaded := h.load io.load
  unfold Service.registerHeartbeat
  dsimp only
  split_ifs with ok
  · refine (loaded.pruneExpiredLocked io.now io.prune).applyHeartbeat rfl ?_ _ _ _
    rw [loadedEpoch_pruneExpiredLocked]
    exact loadedEpoch_of_load ok
  · exact loaded

theorem connect (h : s.Single id) {dst : StreamID} (same : dst.stackID = id) :
    (s.connect dst).Single id := by
  refine ⟨h.stackIDs, fun dst' member => ?_, h.loaded⟩
  rw [ids, Service.connect, List.map_append] at member
  rcases List.mem_append.1 member with old | new
  · exact h.streams dst' old
  · rw [List.mem_singleton.1 new]
    exact same

theorem watch (h : s.Single id) {hb : Heartbeat} (same : hb.stackID = id) (io : HeartbeatScript) :
    (s.watch hb io).Single id := by
  unfold Service.watch
  split_ifs
  · exact h
  · exact (h.connect same).registerHeartbeat same _ _
  · exact h

theorem receiveHeartbeat (h : s.Single id) {hb : Heartbeat} (same : hb.stackID = id) (i : ℕ)
    (sub : Subscriber) (io : HeartbeatScript) : (s.receiveHeartbeat i sub hb io).Single id := by
  unfold Service.receiveHeartbeat
  split_ifs
  · exact h
  · exact h
  · exact h.registerHeartbeat same _ _

theorem unregister (h : s.Single id) {i : ℕ} {sub : Subscriber} (found : s.subs[i]? = some sub) :
    (s.unregister i sub).Single id := by
  have same : sub.id.stackID = id :=
    h.streams _ (List.mem_map.2 ⟨sub, List.mem_of_getElem? found, rfl⟩)
  unfold Service.unregister
  dsimp only
  rw [same]
  split
  · split_ifs
    · exact h.review h.loaded
    · exact h.stateFor
  · exact h.stateFor

theorem observe (h : s.Single id) (observations : List PodObservation) (now : ℤ) (io : Broadcast) :
    (s.observe id observations now io).Single id := by
  have loaded (unloaded : (s.stack id).loadedEpoch = false) :
      ((s.stack id).cluster.applyPodObservations observations s.cfg.expireAfter
        now).1.nodes.toList = [] :=
    ((s.stack id).cluster.reviewed_applyPodObservations _ _ _).empty (h.loaded unloaded)
  unfold Service.observe
  dsimp only
  split_ifs
  · exact (h.review loaded).broadcastLocked _ _ _
  · exact h.review loaded

theorem observePods (h : s.Single id) (observations : List PodObservation) (load : Except String ℤ)
    (now : ℤ) (io : Broadcast) : (s.observePods id observations load now io).Single id := by
  have loaded := h.load load
  have cfg : ((s.stateFor id).loadEpochLocked id load).1.cfg = s.cfg := cfg_loadEpochLocked _ _ _
  unfold Service.observePods
  split
  · dsimp only
    split
    · rw [← cfg]
      exact loaded.observe observations now io
    · exact loaded
  · exact h

theorem saveEpochLocked (h : s.Single id) (k : Bytes) (epoch : ℤ) (saveErr : Option String) :
    (s.saveEpochLocked k epoch saveErr).1.Single id :=
  h.congr (unsent_stackIDs.saveEpochLocked _ _ _ _) (unsent_ids.saveEpochLocked _ _ _ _)
    (stack_saveEpochLocked _ _ _ _ _)

theorem record (h : s.Single id) (e : ServiceEvent) : (s.record e).Single id :=
  h.congr rfl rfl rfl

theorem getTopology (h : s.Single id) (load : Except String ℤ) (now : ℤ) (prune io : Broadcast) :
    (s.getTopology id load now prune io).Single id := by
  have loaded := h.load load
  unfold Service.getTopology
  split_ifs
  · exact h
  · dsimp only
    split
    · have pruned := loaded.pruneExpiredLocked now prune
      split
      · exact (pruned.saveEpochLocked _ _ _).record _
      · exact pruned.saveEpochLocked _ _ _
    · exact loaded
  · exact h.record _

end Single

/-! ## When nothing changes -/

/-- No node is late at `now`. -/
def InTime (s : Service) (id : Bytes) (now : ℤ) : Prop :=
  ∀ n ∈ (s.stack id).cluster.nodes.toList, now - n.lastHeartbeat ≤ s.cfg.suspectAfter ∧
    now - n.lastHeartbeat ≤ s.cfg.expireAfter

/-- The heartbeat tells nothing new about a node on record. -/
def SameBeat (s : Service) (hb : Heartbeat) : Prop :=
  ∃ n ∈ (s.stack hb.stackID).cluster.nodes.lookup hb.nodeID,
    n.incarnation = hb.incarnation ∧ n.podName = hb.podName ∧ n.podIP = hb.podIP ∧
      n.protocolVersion = hb.protocolVersion ∧ (n.applyHeartbeatState hb.state).2 = false

instance (s : Service) (id : Bytes) (now : ℤ) : Decidable (s.InTime id now) := by
  unfold InTime
  infer_instance

instance (s : Service) (hb : Heartbeat) : Decidable (s.SameBeat hb) := by
  unfold SameBeat
  infer_instance

/-- Nothing has been saved: the error flag is as it was, and if it is set then nothing was sent. -/
structure Idles (s s' : Service) : Prop where
  loaded : ∀ k, (s.stack k).loadedEpoch = true → (s'.stack k).loadedEpoch = true
  err : s'.epochErr = s.epochErr
  sent : s.epochErr ≠ none → ∀ dst env, .enqueued dst env ∈ s'.log → .enqueued dst env ∈ s.log

variable {id : Bytes} {s : Service}

theorem Idles.refl (s : Service) : s.Idles s :=
  ⟨fun _ loaded => loaded, rfl, fun _ _ _ sent => sent⟩

theorem Idles.trans {s' s'' : Service} (h : s.Idles s') (h' : s'.Idles s'') : s.Idles s'' where
  loaded k loaded := h'.loaded k (h.loaded k loaded)
  err := h'.err.trans h.err
  sent degraded dst env new := h.sent degraded dst env (h'.sent (h.err.symm ▸ degraded) dst env new)

/-- A stack is replaced by one whose epoch is loaded as well. -/
theorem idles_setStack (s : Service) (k : Bytes) (cluster : ClusterState)
    (subscribers : KeyedSet Registration.nodeID) :
    s.Idles (s.setStack ⟨(s.stack k).stackID, cluster, subscribers, (s.stack k).loadedEpoch⟩) := by
  refine ⟨fun k' loaded => ?_, rfl, fun _ _ _ sent => sent⟩
  by_cases this : k' = k
  · rw [this] at loaded ⊢
    rwa [stack_setStack_same]
  · rwa [stack_setStack_other s this]

theorem idles_stateFor (s : Service) (k : Bytes) : s.Idles (s.stateFor k) := s.idles_setStack k _ _

theorem loadedEpoch_of_sameBeat (h : s.Single id) {hb : Heartbeat} (same : hb.stackID = id)
    (beat : s.SameBeat hb) : (s.stack id).loadedEpoch = true := by
  subst same
  obtain ⟨n, known, -⟩ := beat
  by_contra unloaded
  have empty := h.loaded (Bool.eq_false_iff.2 unloaded)
  have member := (KeyedSet.lookup_eq_some_iff _).1 known
  rw [empty] at member
  exact List.not_mem_nil member.1

theorem load_of_loadedEpoch (loaded : (s.stack id).loadedEpoch = true) (load : Except String ℤ) :
    (s.stateFor id).loadEpochLocked id load = (s.stateFor id, true) := by
  have same : (s.stateFor id).stack id = s.stack id := s.stack_setStack_of_eq (s.stackID_stack id)
  unfold loadEpochLocked
  dsimp only
  rw [if_pos (by rw [same, loaded])]

/-- Where no node is late, a pruning changes nothing. -/
theorem prune_of_inTime {now : ℤ} (inTime : s.InTime id now) (io : Broadcast) :
    s.pruneExpiredLocked id now io = s.setStack
      { s.stack id with
        cluster :=
          ((s.stack id).cluster.pruneExpired s.cfg.suspectAfter s.cfg.expireAfter now).1 } := by
  have unchanged :
      ¬ ((s.stack id).cluster.pruneExpired s.cfg.suspectAfter s.cfg.expireAfter now).2 = true := by
    intro changed
    obtain ⟨n, member, moved⟩ := List.any_eq_true.1 changed
    rw [Node.prune_of_inTime (inTime n member).1 (inTime n member).2] at moved
    cases moved
  unfold pruneExpiredLocked
  exact if_neg unchanged

theorem idles_prune {now : ℤ} (inTime : s.InTime id now) (io : Broadcast) :
    s.Idles (s.pruneExpiredLocked id now io) := by
  rw [prune_of_inTime inTime]
  exact s.idles_setStack id _ _

theorem SameBeat.prune {hb : Heartbeat} (beat : s.SameBeat hb) {now : ℤ}
    (inTime : s.InTime hb.stackID now) (io : Broadcast) :
    (s.pruneExpiredLocked hb.stackID now io).SameBeat hb := by
  obtain ⟨n, known, same⟩ := beat
  have times := inTime n ((KeyedSet.lookup_eq_some_iff _).1 known).1
  refine ⟨n, ?_, same⟩
  rw [Option.mem_def, cluster_pruneExpiredLocked, ClusterState.lookup_pruneExpired, known,
    Option.bind_some, Node.prune_of_inTime times.1 times.2]

theorem SameBeat.unchanged {hb : Heartbeat} (beat : s.SameBeat hb) (now : ℤ) :
    ((s.stack hb.stackID).cluster.applyHeartbeat (observation hb now)).2 = .unchanged := by
  obtain ⟨n, known, incarnation, podName, podIP, version, state⟩ := beat
  have same : (n.heartbeat (observation hb now)).2 = false :=
    Node.heartbeat_unchanged_of_same incarnation podName podIP version state
  have current : ¬ (observation hb now).incarnation < n.incarnation := not_lt.2 incarnation.le
  unfold ClusterState.applyHeartbeat
  rw [show (observation hb now).nodeID = hb.nodeID from rfl, known]
  dsimp only
  rw [if_neg current, same]
  rfl

theorem idles_subscribe (s : Service) (hb : Heartbeat) (cluster : ClusterState) (i : ℕ) :
    s.Idles (s.subscribe hb cluster i) := by
  refine ⟨fun k loaded => ?_, ?_, fun _ dst env new => ?_⟩
  · by_cases this : k = hb.stackID
    · rw [this] at loaded ⊢
      rwa [stack_subscribe]
    · rwa [stack_subscribe_of_ne s this]
  · obtain ⟨subs, same⟩ := s.subscribe_eq hb cluster i
    rw [same]
    rfl
  · rw [log_subscribe] at new
    simpa using new

theorem epochErr_enqueue (s : Service) (i : ℕ) (env : TopologyEnvelope) :
    (s.enqueue i env).epochErr = s.epochErr := by
  unfold enqueue
  split
  · rfl
  · split_ifs <;> rfl

theorem idles_sendLatestLocked (s : Service) (k : Bytes) (i : ℕ) (reason : TopologyReason)
    (now : ℤ) : s.Idles (s.sendLatestLocked k i reason now) := by
  unfold sendLatestLocked
  split_ifs with degraded
  · exact .refl s
  · refine ⟨fun k loaded => ?_, s.epochErr_enqueue i _, fun set => absurd set degraded⟩
    rwa [stack_enqueue]

theorem idles_registerHeartbeat (h : s.Single id) {hb : Heartbeat} (same : hb.stackID = id)
    (beat : s.SameBeat hb) {io : HeartbeatScript} (inTime : s.InTime id io.now) (i : ℕ) :
    s.Idles (s.registerHeartbeat hb i io) := by
  subst same
  have stack : (s.stateFor hb.stackID).stack hb.stackID = s.stack hb.stackID :=
    s.stack_setStack_of_eq (s.stackID_stack hb.stackID)
  have inTime' : (s.stateFor hb.stackID).InTime hb.stackID io.now := by
    unfold InTime
    rw [stack]
    exact inTime
  have beat' : (s.stateFor hb.stackID).SameBeat hb := by
    unfold SameBeat
    rw [stack]
    exact beat
  unfold registerHeartbeat
  rw [load_of_loadedEpoch (loadedEpoch_of_sameBeat h rfl beat)]
  have unchanged := (beat'.prune inTime' io.prune).unchanged io.now
  refine ((s.idles_stateFor hb.stackID).trans (idles_prune inTime' io.prune)).trans ?_
  dsimp only
  rw [if_pos rfl]
  unfold applyHeartbeat
  dsimp only
  rw [unchanged]
  dsimp only
  split_ifs
  · exact (idles_subscribe _ _ _ _).trans (idles_sendLatestLocked _ _ _ _ _)
  · exact idles_subscribe _ _ _ _

theorem idles_watch (h : s.Single id) {hb : Heartbeat} (same : hb.stackID = id)
    (beat : s.SameBeat hb) {io : HeartbeatScript} (inTime : s.InTime id io.now) :
    s.Idles (s.watch hb io) := by
  unfold watch
  split_ifs
  · exact .refl s
  · have connected : s.Idles (s.connect hb.stream) :=
      ⟨fun _ loaded => loaded, rfl, fun _ _ _ sent => sent⟩
    exact connected.trans (idles_registerHeartbeat (h.connect same) same beat inTime _)
  · exact .refl s

theorem idles_receiveHeartbeat (h : s.Single id) {hb : Heartbeat} (same : hb.stackID = id)
    (beat : s.SameBeat hb) {io : HeartbeatScript} (inTime : s.InTime id io.now) (i : ℕ)
    (sub : Subscriber) : s.Idles (s.receiveHeartbeat i sub hb io) := by
  unfold receiveHeartbeat
  split_ifs
  · exact .refl s
  · exact .refl s
  · exact idles_registerHeartbeat h same beat inTime i

theorem idles_unregister (s : Service) (i : ℕ) (sub : Subscriber) :
    s.Idles (s.unregister i sub) := by
  unfold unregister
  dsimp only
  split
  · split_ifs
    · exact s.idles_setStack _ _ _
    · exact s.idles_stateFor _
  · exact s.idles_stateFor _

/-- No pod has changed. -/
def SamePods (s : Service) (id : Bytes) (observations : List PodObservation) (now : ℤ) : Prop :=
  ((s.stack id).cluster.applyPodObservations observations s.cfg.expireAfter now).2 = false

instance (s : Service) (id : Bytes) (observations : List PodObservation) (now : ℤ) :
    Decidable (s.SamePods id observations now) := by
  unfold SamePods
  infer_instance

theorem idles_observePods (loaded : (s.stack id).loadedEpoch = true)
    {observations : List PodObservation} {now : ℤ} (same : s.SamePods id observations now)
    (load : Except String ℤ) (io : Broadcast) :
    s.Idles (s.observePods id observations load now io) := by
  have stack : (s.stateFor id).stack id = s.stack id := s.stack_setStack_of_eq (s.stackID_stack id)
  unfold observePods
  split_ifs
  · rw [load_of_loadedEpoch loaded]
    dsimp only
    rw [if_pos rfl]
    split_ifs with changed
    · rw [stack, same] at changed
      cases changed
    · exact (s.idles_stateFor id).trans (idles_setStack _ id _ _)
  · exact .refl s

end Service

/-! ## Runs -/

namespace Server

/-- The bookworm holds the lock. -/
def bookwormTicks (s : Server) : Bool :=
  match s.tick with
  | some ⟨none, _⟩ => true
  | _ => false

/-- The bookworm is not on its way from its look at the flag to its last save. -/
def BookwormRests (s : Server) : Prop :=
  s.bookwormReady = false ∧ ∀ k rest, s.tick ≠ some ⟨none, k :: rest⟩

end Server

namespace Process

/-- All calls are about the stack, and the bookworm is one loop, which looks at the flag when its
last tick is over. -/
def OneStack (id : Bytes) (p : Process) : ProcessAction → Prop
  | .server (.watch hb _) => hb.stackID = id
  | .server (.receiveHeartbeat _ hb _) => hb.stackID = id
  | .server (.observePods k ..) => k = id
  | .server (.getTopology k ..) => k = id
  | .server .bookwormCheck => p.server.bookwormTicks = false
  | _ => True

instance (id : Bytes) (p : Process) : DecidablePred (p.OneStack id)
  | .server (.watch ..) | .server (.receiveHeartbeat ..) | .server (.observePods ..)
  | .server (.getTopology ..) | .server .bookwormCheck => inferInstanceAs (Decidable (_ = _))
  | .server (.receiveEnvelope _) | .server (.unregister _) | .server .reaperCheck
  | .server (.reaperLock ..) | .server (.bookwormLock _) | .server (.tick _) | .poll =>
    isTrue trivial

/-- Nodes are not late and tell nothing new, pods do not change, and `GetTopology` is not called. -/
def Quiet (id : Bytes) (p : Process) : ProcessAction → Prop
  | .server (.watch hb io) =>
    hb.stackID = id ∧ p.service.SameBeat hb ∧ p.service.InTime id io.now
  | .server (.receiveHeartbeat _ hb io) =>
    hb.stackID = id ∧ p.service.SameBeat hb ∧ p.service.InTime id io.now
  | .server (.observePods k observations _ now _) =>
    k = id ∧ p.service.SamePods k observations now
  | .server (.getTopology ..) => False
  | .server .bookwormCheck => p.server.bookwormTicks = false
  | .server (.tick _) =>
    match p.server.tick with
    | some ⟨some now, _ :: _⟩ => p.service.InTime id now
    | _ => True
  | _ => True

instance (id : Bytes) (p : Process) : DecidablePred (p.Quiet id)
  | .server (.watch ..) | .server (.receiveHeartbeat ..) | .server (.observePods ..) => by
    unfold Quiet
    infer_instance
  | .server (.getTopology ..) => isFalse False.elim
  | .server .bookwormCheck => inferInstanceAs (Decidable (_ = _))
  | .server (.tick io) => by
    unfold Quiet
    dsimp only
    split <;> infer_instance
  | .server (.receiveEnvelope _) | .server (.unregister _) | .server .reaperCheck
  | .server (.reaperLock ..) | .server (.bookwormLock _) | .poll => isTrue trivial

/-- The `SaveEpoch` call of a bookworm tick fails. -/
def SaveFails (p : Process) : ProcessAction → Prop
  | .server (.tick io) =>
    p.service.cfg.hasEpochStore = true ∧ io.saveErr ≠ none ∧
      match p.server.tick with
      | some ⟨none, _ :: _⟩ => True
      | _ => False
  | _ => False

instance (p : Process) : DecidablePred p.SaveFails
  | .server (.tick io) => by
    unfold SaveFails
    dsimp only
    split <;> infer_instance
  | .server (.watch ..) | .server (.receiveHeartbeat ..) | .server (.receiveEnvelope _)
  | .server (.unregister _) | .server (.observePods ..) | .server (.getTopology ..)
  | .server .reaperCheck | .server .bookwormCheck | .server (.reaperLock ..)
  | .server (.bookwormLock _) | .poll => isFalse False.elim

theorem Quiet.oneStack {id : Bytes} {p : Process} {a : ProcessAction} (h : Quiet id p a) :
    OneStack id p a := by
  cases a with
  | poll => trivial
  | server a =>
    cases a with
    | watch | receiveHeartbeat | observePods => exact h.1
    | getTopology => exact h.elim
    | bookwormCheck => exact h
    | receiveEnvelope | unregister | reaperCheck | reaperLock | bookwormLock | tick => trivial

end Process

/-- There is at most one stack to come in a tick, and no tick of the bookworm waits for another. -/
structure Server.Steady (id : Bytes) (s : Server) : Prop where
  single : s.service.Single id
  order : ∀ t, s.tick = some t → t.rest.length ≤ 1 ∧ ∀ k ∈ t.rest, k = id
  ready : s.bookwormTicks = true → s.bookwormReady = false

theorem Service.Single.length_le {id : Bytes} {s : Service} (h : s.Single id) :
    s.stackIDs.length ≤ 1 := by
  have nodup : s.stackIDs.Nodup := s.stackMap.nodup
  rw [List.eq_replicate_of_mem h.stackIDs] at nodup
  exact List.nodup_replicate.1 nodup

namespace Server.Steady

variable {id : Bytes} {s u : Server}

theorem lock (h : s.Steady id) {reaper : Option ℤ} {order : List Bytes}
    (all : order.Perm s.service.stackIDs) :
    ∀ t, some (Tick.mk reaper order) = some t → t.rest.length ≤ 1 ∧ ∀ k ∈ t.rest, k = id := by
  rintro _ ⟨⟩
  refine ⟨all.length_eq.trans_le h.single.length_le, fun k member => ?_⟩
  exact h.single.stackIDs k (all.mem_iff.1 member)

/-- The next stack of a tick. -/
theorem tickStack (h : s.Steady id) {reaper : Option ℤ} {k : Bytes} {rest : List Bytes}
    (ticking : s.tick = some ⟨reaper, k :: rest⟩) (io : Broadcast) :
    (Server.tickStack s.service reaper k io).Single id := by
  obtain rfl := (h.order _ ticking).2 k (.head rest)
  unfold Server.tickStack
  split
  · exact h.single.pruneExpiredLocked _ _
  · exact h.single.broadcastLocked _ _ _

theorem step {p : Process} (h : p.server.Steady id) {a : ServerAction}
    (one : p.OneStack id (.server a)) (enabled : p.server.step a = some u) : u.Steady id := by
  have single := h.single
  cases Server.steps_of_step enabled with
  | watch => exact ⟨single.watch one _, h.order, h.ready⟩
  | receiveHeartbeat => exact ⟨single.receiveHeartbeat one _ _ _, h.order, h.ready⟩
  | receiveEnvelope found =>
    exact ⟨single.congr rfl (map_set_of_getElem? found rfl) rfl, h.order, h.ready⟩
  | unregister found => exact ⟨single.unregister found, h.order, h.ready⟩
  | observePods =>
    cases one
    exact ⟨single.observePods _ _ _ _, h.order, h.ready⟩
  | getTopology =>
    cases one
    exact ⟨single.getTopology _ _ _ _, h.order, h.ready⟩
  | reaperCheck | reaperStandby => exact ⟨single, h.order, h.ready⟩
  | bookwormCheck => exact ⟨single, h.order, fun ticks => absurd ticks (Bool.eq_false_iff.1 one)⟩
  | bookwormStandby => exact ⟨single, h.order, fun _ => rfl⟩
  | reaperLock all => exact ⟨single, h.lock all, fun ticks => absurd ticks Bool.false_ne_true⟩
  | bookwormLock _ all => exact ⟨single, h.lock all, fun _ => rfl⟩
  | @tick io reaper k rest ticking =>
    obtain ⟨short, all⟩ := h.order _ ticking
    refine ⟨h.tickStack ticking io, fun t now => ?_, fun ticks => h.ready ?_⟩
    · cases now
      exact ⟨(Nat.le_succ _).trans short, fun k' member => all k' (.tail k member)⟩
    · rw [Server.bookwormTicks, ticking]
      cases reaper with
      | none => rfl
      | some now => cases ticks
  | unlock =>
    exact ⟨single, fun _ ticks => absurd ticks.symm (Option.some_ne_none _),
      fun ticks => absurd ticks Bool.false_ne_true⟩

end Server.Steady

namespace Process

variable {id : Bytes} {hc : HealthConfig} {p u : Process} {a : ProcessAction}

/-- The server is steady, and the failures counted are not negative. -/
structure Steady (id : Bytes) (p : Process) : Prop where
  server : p.server.Steady id
  counts : 0 ≤ p.health.consecutive

theorem steady_new (cfg : Config) (id : Bytes) : (new cfg).Steady id where
  server := ⟨⟨fun _ member => absurd member List.not_mem_nil,
    fun _ member => absurd member List.not_mem_nil, fun _ => rfl⟩, nofun, nofun⟩
  counts := le_rfl

theorem poll_eq (enabled : p.step hc .poll = some u) :
    0 < hc.threshold ∧ p.health.terminated = false ∧
      u = { p with health := p.health.poll hc.threshold p.service.epochErr } := by
  simp only [step] at enabled
  split_ifs at enabled with off
  cases enabled
  push Not at off
  exact ⟨off.2.1, Bool.eq_false_iff.2 off.2.2, rfl⟩

theorem server_eq {a : ServerAction} (enabled : p.step hc (.server a) = some u) :
    p.server.step a = some u.server ∧ u.health = p.health := by
  obtain ⟨server, steps, h⟩ := Option.bind_eq_some_iff.1 enabled
  cases h
  exact ⟨steps, rfl⟩

theorem Steady.step (h : p.Steady id) (one : p.OneStack id a) (enabled : p.step hc a = some u) :
    u.Steady id := by
  cases a with
  | server a =>
    obtain ⟨enabled, same⟩ := server_eq enabled
    exact ⟨h.server.step one enabled, same ▸ h.counts⟩
  | poll =>
    obtain ⟨-, -, rfl⟩ := poll_eq enabled
    refine ⟨h.server, ?_⟩
    have counts := h.counts
    dsimp only [EpochHealth.poll]
    split_ifs
    · dsimp only
      omega
    · exact le_rfl

/-- In a quiet run only the bookworm saves. -/
theorem Quiet.idles (h : p.Steady id) (loaded : (p.service.stack id).loadedEpoch = true)
    {a : ServerAction} (quiet : p.Quiet id (.server a)) {v : Server}
    (enabled : p.server.step a = some v) :
    p.service.Idles v.service ∨ ∃ io rest, a = .tick io ∧
      p.server.tick = some ⟨none, id :: rest⟩ ∧ v.tick = some ⟨none, rest⟩ ∧
      v.service = p.service.broadcastLocked id .bookworm io := by
  have single := h.server.single
  cases Server.steps_of_step enabled with
  | watch => exact .inl (Service.idles_watch single quiet.1 quiet.2.1 quiet.2.2)
  | receiveHeartbeat =>
    exact .inl (Service.idles_receiveHeartbeat single quiet.1 quiet.2.1 quiet.2.2 _ _)
  | receiveEnvelope => exact .inl ⟨fun _ loaded => loaded, rfl, fun _ _ _ sent => sent⟩
  | unregister => exact .inl (Service.idles_unregister _ _ _)
  | observePods =>
    obtain ⟨rfl, same⟩ := quiet
    exact .inl (Service.idles_observePods loaded same _ _)
  | getTopology => exact quiet.elim
  | reaperCheck | bookwormCheck | reaperLock | reaperStandby | bookwormLock | bookwormStandby
  | unlock => exact .inl (.refl _)
  | @tick io reaper k rest ticking =>
    obtain rfl := (h.server.order _ ticking).2 k (.head rest)
    simp only [Quiet, ticking] at quiet
    cases reaper with
    | some now => exact .inl (Service.idles_prune quiet io)
    | none => exact .inr ⟨io, rest, rfl, ticking, rfl, rfl⟩

end Process

namespace Service

/-! ## A tick of the bookworm -/

variable {s : Service} {id : Bytes} {reason : TopologyReason} {io : Broadcast}

theorem broadcast_fails (store : s.cfg.hasEpochStore = true) (failed : io.saveErr ≠ none) :
    (s.broadcastLocked id reason io).epochErr ≠ none := by
  obtain ⟨text, err⟩ := Option.ne_none_iff_exists'.1 failed
  simp [broadcastLocked, saveEpochLocked, store, err, setEpochError]

theorem epochErr_sends (rs : List Registration) (s : Service) (env : TopologyEnvelope) :
    (rs.foldl (fun s r => s.enqueue r.sub env) s).epochErr = s.epochErr := by
  induction rs generalizing s with
  | nil => rfl
  | cons r rs ih => exact (ih _).trans (s.epochErr_enqueue r.sub env)

theorem subs_saveEpochLocked (s : Service) (k : Bytes) (epoch : ℤ) (saveErr : Option String) :
    (s.saveEpochLocked k epoch saveErr).1.subs = s.subs := by
  unfold saveEpochLocked
  split_ifs
  · rfl
  · split <;> rfl

theorem save_succeeds {saveErr : Option String}
    (ok : s.cfg.hasEpochStore = true → saveErr = none) (k : Bytes) (epoch : ℤ) :
    (s.saveEpochLocked k epoch saveErr).2 = true ∧
      (s.saveEpochLocked k epoch saveErr).1.epochErr = none := by
  unfold saveEpochLocked
  split_ifs with store
  · exact ⟨rfl, rfl⟩
  · rw [ok (Bool.eq_true_of_not_eq_false store)]
    exact ⟨rfl, rfl⟩

/-- The flag is taken back and the envelope is sent. -/
theorem broadcast_succeeds (ok : s.cfg.hasEpochStore = true → io.saveErr = none) :
    s.broadcastLocked id reason io = (s.stack id).subscribers.toList.foldl
      (fun t r => t.enqueue r.sub (s.envelopeFor id reason io.now))
      (s.saveEpochLocked id (s.envelopeFor id reason io.now).epoch io.saveErr).1 :=
  if_pos (save_succeeds ok _ _).1

theorem channel_enqueue_cases (s : Service) (i : ℕ) (env : TopologyEnvelope) (j : ℕ) :
    (s.enqueue i env).channel j = s.channel j ∨
      (s.enqueue i env).channel j = s.channel j ++ [env] := by
  cases found : s.ids[i]? with
  | none =>
    rw [ids, List.getElem?_map, Option.map_eq_none_iff] at found
    rw [enqueue, found]
    exact .inl rfl
  | some dst =>
    rw [channel_enqueue s found]
    split_ifs with last
    · exact .inr (by rw [last.1])
    · exact .inl rfl

/-- A subscriber with room receives what is sent to it. -/
theorem mem_channel_sends {rs : List Registration} {env : TopologyEnvelope} {r : Registration}
    (member : r ∈ rs) {dst : StreamID} (found : s.ids[r.sub]? = some dst)
    (ready : env ∈ s.channel r.sub ∨ (s.channel r.sub).length < 8) :
    env ∈ (rs.foldl (fun s r => s.enqueue r.sub env) s).channel r.sub := by
  have keeps (rs : List Registration) (s : Service) (there : env ∈ s.channel r.sub) :
      env ∈ (rs.foldl (fun s r => s.enqueue r.sub env) s).channel r.sub := by
    induction rs generalizing s with
    | nil => exact there
    | cons r' rs ih =>
      refine ih _ ?_
      rcases s.channel_enqueue_cases r'.sub env r.sub with same | more
      · rwa [same]
      · rw [more]
        exact List.mem_append_left _ there
  induction rs generalizing s with
  | nil => cases member
  | cons r' rs ih =>
    have next : env ∈ (s.enqueue r'.sub env).channel r.sub ∨
        ((s.enqueue r'.sub env).channel r.sub).length < 8 := by
      rcases s.channel_enqueue_cases r'.sub env r.sub with same | more
      · rwa [same]
      · rw [more]
        exact .inl (List.mem_append_right _ (List.mem_singleton_self env))
    rcases List.mem_cons.1 member with rfl | later
    · refine keeps rs _ (ready.elim (fun there => ?_) fun room => ?_)
      · exact keeps [r] s there
      · rw [channel_enqueue s found, if_pos ⟨rfl, room⟩]
        exact List.mem_append_right _ (List.mem_singleton_self env)
    · refine ih later ?_ next
      rwa [ids_enqueue]

end Service

namespace Process

variable {id : Bytes} {hc : HealthConfig} {p u : Process} {a : ProcessAction}

/-! ## What a save decides -/

theorem SaveFails.rests (h : p.Steady id) (fails : p.SaveFails a) (enabled : p.step hc a = some u) :
    u.service.epochErr ≠ none ∧ u.server.BookwormRests := by
  cases a with
  | poll => exact fails.elim
  | server a =>
    cases a with
    | tick io =>
      obtain ⟨store, failed, ticking⟩ := fails
      obtain ⟨steps, -⟩ := server_eq enabled
      split at ticking
      · next k rest held =>
        simp only [Server.step, held] at steps
        have ready := h.server.ready (by rw [Server.bookwormTicks, held])
        have short := (h.server.order _ held).1
        rw [service, ← Option.some.inj steps]
        refine ⟨Service.broadcast_fails store failed, ready, fun k' rest' now => ?_⟩
        cases now
        exact absurd short (by simp)
      · exact ticking.elim
    | _ => exact fails.elim

theorem saves_of_not_saveFails {io : Broadcast} {k : Bytes} {rest : List Bytes}
    (ticking : p.server.tick = some ⟨none, k :: rest⟩) (saves : ¬ p.SaveFails (.server (.tick io)))
    (store : p.service.cfg.hasEpochStore = true) : io.saveErr = none := by
  by_contra failed
  refine saves ⟨store, failed, ?_⟩
  rw [ticking]
  trivial

/-- The flag stays clear while no save fails. -/
theorem Quiet.clear (h : p.Steady id) (loaded : (p.service.stack id).loadedEpoch = true)
    (clear : p.service.epochErr = none) (quiet : p.Quiet id a) (saves : ¬ p.SaveFails a)
    (enabled : p.step hc a = some u) :
    (u.service.stack id).loadedEpoch = true ∧ u.service.epochErr = none ∧
      u.health.terminated = p.health.terminated := by
  cases a with
  | poll =>
    obtain ⟨-, -, rfl⟩ := poll_eq enabled
    refine ⟨loaded, clear, ?_⟩
    rw [EpochHealth.poll, if_neg (not_not.2 clear)]
  | server a =>
    obtain ⟨steps, same⟩ := server_eq enabled
    rw [same]
    rcases quiet.idles h loaded steps with idles | ⟨io, rest, rfl, ticking, -, sent⟩
    · exact ⟨idles.loaded id loaded, idles.err.trans clear, rfl⟩
    · have ok := saves_of_not_saveFails ticking saves
      rw [service, sent]
      refine ⟨?_, ?_, rfl⟩
      · rwa [Service.stack_broadcastLocked]
      · rw [Service.broadcast_succeeds ok, Service.epochErr_sends]
        exact (Service.save_succeeds ok _ _).2

/-- The flag is set, and the bookworm will not save before it looks at it. -/
structure Stuck (id : Bytes) (p : Process) : Prop where
  steady : p.Steady id
  loaded : (p.service.stack id).loadedEpoch = true
  degraded : p.service.epochErr ≠ none
  rests : p.server.BookwormRests

theorem Stuck.idles (h : p.Stuck id) {a : ServerAction} (quiet : p.Quiet id (.server a))
    {v : Server} (enabled : p.server.step a = some v) :
    p.service.Idles v.service ∧ v.BookwormRests := by
  have rests := h.rests
  have idles : p.service.Idles v.service := by
    rcases quiet.idles h.steady h.loaded enabled with idles | ⟨io, rest, -, ticking, -⟩
    · exact idles
    · exact absurd ticking (rests.2 id rest)
  refine ⟨idles, ?_⟩
  cases Server.steps_of_step enabled with
  | watch | receiveHeartbeat | receiveEnvelope | unregister | observePods | getTopology
  | reaperCheck | reaperStandby => exact rests
  | bookwormCheck => exact ⟨decide_eq_false h.degraded, rests.2⟩
  | bookwormStandby => exact ⟨rfl, rests.2⟩
  | bookwormLock ready =>
    rw [rests.1] at ready
    exact absurd ready Bool.false_ne_true
  | reaperLock | unlock =>
    refine ⟨rests.1, fun k rest now => ?_⟩
    cases now
  | @tick io reaper k rest ticking =>
    refine ⟨rests.1, fun k' rest' now => ?_⟩
    cases now
    exact rests.2 k (k' :: rest') ticking

theorem Stuck.step (h : p.Stuck id) (quiet : p.Quiet id a) (enabled : p.step hc a = some u) :
    u.Stuck id ∧
      ∀ dst env, .enqueued dst env ∈ u.service.log → .enqueued dst env ∈ p.service.log := by
  have steady := h.steady.step quiet.oneStack enabled
  cases a with
  | server a =>
    obtain ⟨steps, -⟩ := server_eq enabled
    obtain ⟨idles, rests⟩ := h.idles quiet steps
    refine ⟨⟨steady, idles.loaded id h.loaded, ?_, rests⟩, idles.sent h.degraded⟩
    rw [service, idles.err]
    exact h.degraded
  | poll =>
    obtain ⟨-, -, rfl⟩ := poll_eq enabled
    exact ⟨⟨steady, h.loaded, h.degraded, h.rests⟩, fun _ _ sent => sent⟩

/-- `n` polls have found the flag set. -/
def Counted (hc : HealthConfig) (n : ℕ) (p : Process) : Prop :=
  p.health.terminated = true ∨
    n ≤ p.health.consecutive ∧ (n = 0 ∨ p.health.consecutive < hc.threshold)

theorem Counted.step {n : ℕ} (counted : Counted hc n p) (degraded : p.service.epochErr ≠ none)
    (enabled : p.step hc a = some u) : Counted hc (n + [a].countP ProcessAction.isPoll) u := by
  cases a with
  | server a =>
    obtain ⟨-, same⟩ := server_eq enabled
    unfold Counted
    rw [same]
    exact counted
  | poll =>
    obtain ⟨-, running, rfl⟩ := poll_eq enabled
    obtain ⟨counts, -⟩ := counted.resolve_left (Bool.eq_false_iff.1 running)
    unfold Counted
    dsimp only [EpochHealth.poll]
    rw [if_pos degraded]
    by_cases last : p.health.consecutive + 1 ≥ hc.threshold
    · exact .inl (decide_eq_true last)
    · refine .inr ⟨?_, .inr (not_le.1 last)⟩
      change ((n + 1 : ℕ) : ℤ) ≤ p.health.consecutive + 1
      omega

theorem Stuck.run (h : p.Stuck id) {bs : List ProcessAction}
    (run : Run (Process.step hc) (Quiet id) p bs u) :
    u.Stuck id ∧
      (∀ dst env, .enqueued dst env ∈ u.service.log → .enqueued dst env ∈ p.service.log) ∧
      Counted hc (bs.countP ProcessAction.isPoll) u := by
  induction run with
  | nil => exact ⟨h, fun _ _ sent => sent, .inr ⟨h.steady.counts, .inl rfl⟩⟩
  | snoc a _ quiet enabled ih =>
    obtain ⟨stuck, sent, counted⟩ := ih
    obtain ⟨stuck', sent'⟩ := stuck.step quiet enabled
    refine ⟨stuck', fun dst env new => sent dst env (sent' dst env new), ?_⟩
    rw [List.countP_append]
    exact counted.step stuck.degraded enabled

/-- As many polls as the threshold end the process. -/
theorem Counted.terminated {n : ℕ} (h : Counted hc n p) (positive : 0 < hc.threshold)
    (enough : hc.threshold ≤ n) : p.health.terminated = true := by
  refine h.resolve_right fun ⟨counts, few⟩ => ?_
  omega

/-! ## Quiet stacks -/

theorem owned_of_run {cfg : Config} {ok : Process → ProcessAction → Prop} {as : List ProcessAction}
    (run : Run (Process.step hc) ok (.new cfg) as p) : p.service.Owned := by
  refine run.invariant (fun p => p.service.Owned) (Service.owned_new cfg) ?_
  intro p a u h _ enabled
  cases a with
  | server a => exact h.step (server_eq enabled).1
  | poll =>
    obtain ⟨-, -, rfl⟩ := poll_eq enabled
    exact h

/-- A tick of the bookworm whose save does not fail clears the flag, and reaches every subscriber
that has room. -/
theorem tick_heals (owned : p.service.Owned) {io : Broadcast} {rest : List Bytes}
    (ticking : p.server.tick = some ⟨none, id :: rest⟩) (saves : ¬ p.SaveFails (.server (.tick io)))
    (enabled : p.step hc (.server (.tick io)) = some u) :
    u.service.epochErr = none ∧ ∀ r ∈ (p.service.stack id).subscribers.toList,
      (p.service.channel r.sub).length < 8 →
        p.service.envelopeFor id .bookworm io.now ∈ u.service.channel r.sub := by
  have ok := saves_of_not_saveFails ticking saves
  obtain ⟨steps, -⟩ := server_eq enabled
  simp only [Server.step, ticking] at steps
  have sent : u.service = p.service.broadcastLocked id .bookworm io := by
    rw [service, ← Option.some.inj steps]
    rfl
  rw [sent, Service.broadcast_succeeds ok]
  refine ⟨?_, fun r member room => ?_⟩
  · rw [Service.epochErr_sends]
    exact (Service.save_succeeds ok _ _).2
  · obtain ⟨dst, found, -⟩ := owned.belongs id r member
    have subs := p.service.subs_saveEpochLocked id
      (p.service.envelopeFor id .bookworm io.now).epoch io.saveErr
    rw [Service.ids, ← subs] at found
    rw [Service.channel, ← subs] at room
    exact Service.mem_channel_sends member found (.inr room)

end Process

open Process in

/-- A quiet stack stays healthy while no save fails, and every tick of the bookworm reaches the
subscribers.  A save that fails is the last one: from then on the flag is set, nothing is sent and
the process ends. -/
theorem quiet_stack_healthy_until_save_fails {hc : HealthConfig} {cfg : Config} {id : Bytes}
    {as : List ProcessAction} {s : Process} (reached : Run (step hc) (OneStack id) (.new cfg) as s)
    (registered : (s.service.stack id).cluster.nodes.toList ≠ []) :
    (s.service.epochErr = none → ∀ bs u,
      Run (step hc) (fun p a => p.Quiet id a ∧ ¬ p.SaveFails a) s bs u →
        u.service.epochErr = none ∧ u.health.terminated = s.health.terminated) ∧
    (∀ io rest u, s.server.tick = some ⟨none, id :: rest⟩ → ¬ s.SaveFails (.server (.tick io)) →
      s.step hc (.server (.tick io)) = some u →
        u.service.epochErr = none ∧ ∀ r ∈ (s.service.stack id).subscribers.toList,
          (s.service.channel r.sub).length < 8 →
            s.service.envelopeFor id .bookworm io.now ∈ u.service.channel r.sub) ∧
    (∀ a u, s.SaveFails a → s.step hc a = some u →
      u.service.epochErr ≠ none ∧ u.server.BookwormRests) ∧
    (s.service.epochErr ≠ none → s.server.BookwormRests → ∀ bs u,
      Run (step hc) (Quiet id) s bs u →
        u.service.epochErr ≠ none ∧
        (∀ dst env, .enqueued dst env ∈ u.service.log → .enqueued dst env ∈ s.service.log) ∧
        (0 < hc.threshold → hc.threshold ≤ bs.countP ProcessAction.isPoll →
          u.health.terminated = true)) := by
  have steady : s.Steady id := reached.invariant _ (steady_new cfg id)
    fun _ _ _ h one enabled => h.step one enabled
  have loaded : (s.service.stack id).loadedEpoch = true :=
    Bool.eq_true_of_not_eq_false fun missing => registered (steady.server.single.loaded missing)
  refine ⟨fun clear bs u run => ?_, fun io rest u ticking saves enabled => ?_,
    fun a u fails enabled => fails.rests steady enabled, fun degraded rests bs u run => ?_⟩
  · have healthy := run.invariant
      (fun u => u.Steady id ∧ (u.service.stack id).loadedEpoch = true ∧ u.service.epochErr = none ∧
        u.health.terminated = s.health.terminated) ⟨steady, loaded, clear, rfl⟩
      fun p a u ⟨steady, loaded, clear, same⟩ ⟨quiet, saves⟩ enabled => by
        obtain ⟨loaded', clear', same'⟩ := quiet.clear steady loaded clear saves enabled
        exact ⟨steady.step quiet.oneStack enabled, loaded', clear', same'.trans same⟩
    exact healthy.2.2
  · exact tick_heals (owned_of_run reached) ticking saves enabled
  · obtain ⟨stuck, sent, counted⟩ := Stuck.run ⟨steady, loaded, degraded, rests⟩ run
    exact ⟨stuck.degraded, sent, counted.terminated⟩

/-- Polls every 5 seconds, of which 3 in a row end the process. -/
def standardHealth : HealthConfig := ⟨5000000000, 3⟩

/-- A node registers, and sends a heartbeat before the first tick of the bookworm. -/
def register : List ProcessAction :=
  [.server (.watch (beatOf 1) (beatAt 0)), .poll,
    .server (.receiveHeartbeat 0 (beatOf 1) (beatAt 9))]

theorem quiet_stack_healthy_until_save_fails_ticks :
    ∃ s u,
      Run (Process.step standardHealth) (Process.OneStack [97]) (.new standardConfig) register s ∧
      Run (Process.step standardHealth) (fun p a => p.Quiet [97] a ∧ ¬ p.SaveFails a) s
        ((bookwormAt 10).map .server ++ [.poll]) u ∧
      u.service.epochErr = none ∧ u.health.terminated = s.health.terminated := by
  obtain ⟨s, reached, registered, clear, ends⟩ := Run.exists_of_exec (Process.step standardHealth)
    (Process.OneStack [97]) (.new standardConfig) register
    (fun s => (s.service.stack [97]).cluster.nodes.toList ≠ [] ∧ s.service.epochErr = none ∧
      (exec (Process.step standardHealth) (fun p a => p.Quiet [97] a ∧ ¬ p.SaveFails a) s
        ((bookwormAt 10).map .server ++ [.poll])).isSome) (by decide +kernel)
  obtain ⟨u, ends⟩ := Option.isSome_iff_exists.1 ends
  have run := Run.of_exec ends
  exact ⟨s, u, reached, run,
    (quiet_stack_healthy_until_save_fails reached registered).1 clear _ u run⟩

/-- The save of one tick of the bookworm fails, at 10 seconds.  The next tick, at 20 seconds, is
skipped, and the poll after it is the third to find the flag set. -/
def failOnce : List ProcessAction :=
  [.server .bookwormCheck, .server (.bookwormLock [[97]]),
    .server (.tick ⟨10000000000, some "conflict"⟩), .server (.tick ⟨10000000000, none⟩), .poll,
    .server .reaperCheck, .poll, .server (.receiveHeartbeat 0 (beatOf 1) (beatAt 19)),
    .server .reaperCheck, .server .bookwormCheck, .poll]

theorem one_failed_save_terminates :
    ∃ s u,
      Run (Process.step standardHealth) (Process.OneStack [97]) (.new standardConfig) register s ∧
      (s.service.stack [97]).cluster.nodes.toList ≠ [] ∧ s.service.epochErr = none ∧
      Run (Process.step standardHealth) (Process.Quiet [97]) s failOnce u ∧
      u.service.epochErr ≠ none ∧ u.health.terminated = true := by
  obtain ⟨s, reached, registered, clear, ends⟩ := Run.exists_of_exec (Process.step standardHealth)
    (Process.OneStack [97]) (.new standardConfig) register
    (fun s => (s.service.stack [97]).cluster.nodes.toList ≠ [] ∧ s.service.epochErr = none ∧
      (exec (Process.step standardHealth) (Process.Quiet [97]) s failOnce).any
        fun u => u.service.epochErr ≠ none ∧ u.health.terminated = true) (by decide +kernel)
  obtain ⟨u, run, degraded, terminated⟩ := Run.exists_of_exec _ _ s failOnce
    (fun u => u.service.epochErr ≠ none ∧ u.health.terminated = true) ends
  exact ⟨s, u, reached, registered, clear, run, degraded, terminated⟩

end Topology

end OlricStack
