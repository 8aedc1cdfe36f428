import OlricStack.Topology.Replacement
import OlricStack.Watchdog.Lifecycle

/-!
# Who is granted a lease

Every envelope of a primary extends the lease of the node it is sent to, whether it lists the node
or not.  The map of subscribers is cleaned when a pruning has changed something, and at no other
time: a node whose pod has ended, that has reported its own removal or that has fallen silent keeps
its subscriber and gets envelopes that do not list it (`excluded_node_is_granted`).  The envelopes
list their receivers where none of this happens to a node with a subscriber
(`only_members_granted`).
-/

namespace OlricStack

namespace Watchdog

/-! ## Nodes that can be listed -/

namespace Node

theorem shows_prune {n n' : Node} {suspectAfter expireAfter now : ℤ} (shows : n.shows = true)
    (h : (n.prune suspectAfter expireAfter now).1 = some n') : n'.shows = true := by
  unfold prune at h
  dsimp only at h
  split_ifs at h with late kept
  · cases h
    unfold transition at kept ⊢
    cases state : n.state <;> simp_all [NodeState.next, Node.shows]
  · cases h
    unfold transition
    cases state : n.state <;> simp_all [NodeState.next, Node.shows]
  · cases h
    exact shows

/-- A node that could be listed is not removed silently. -/
theorem prune_changed {n : Node} {suspectAfter expireAfter now : ℤ} (shows : n.shows = true)
    (h : (n.prune suspectAfter expireAfter now).1 = none) :
    (n.prune suspectAfter expireAfter now).2 = true := by
  unfold prune at h ⊢
  dsimp only at h ⊢
  split_ifs at h ⊢ with late gone
  unfold transition at gone ⊢
  cases state : n.state <;> simp_all [NodeState.next, Node.shows]

/-- The state does not keep a node off the list. -/
def InTopology (state : NodeState) : Prop := state ≠ .removed ∧ state ≠ .unreachable

instance (state : NodeState) : Decidable (InTopology state) := by
  unfold InTopology
  infer_instance

theorem shows_applyHeartbeatState {n : Node} (shows : n.shows = true) {state : NodeState}
    (reported : InTopology state) : (n.applyHeartbeatState state).1.shows = true := by
  unfold applyHeartbeatState transition
  cases state <;> cases current : n.state <;>
    simp_all [NodeState.orReady, NodeState.next, Node.shows, InTopology]

theorem shows_heartbeat {n : Node} (shows : n.shows = true) {obs : HeartbeatObservation}
    (reported : InTopology obs.reportedState) : (n.heartbeat obs).1.shows = true := by
  unfold heartbeat
  dsimp only
  split_ifs
  · cases state : obs.reportedState <;> simp_all [NodeState.orReady, Node.shows, InTopology]
  · refine shows_applyHeartbeatState ?_ reported
    exact shows

theorem shows_ofHeartbeat {obs : HeartbeatObservation} (reported : InTopology obs.reportedState) :
    (ofHeartbeat obs).shows = true := by
  unfold ofHeartbeat
  cases state : obs.reportedState <;> simp_all [NodeState.orReady, Node.shows, InTopology]

/-- The observations do not find that the pod of the node has ended. -/
def Running (n : Node) (observations : List PodObservation) : Prop :=
  ∀ obs ∈ n.observation observations, obs.phase ≠ "Failed" ∧ obs.phase ≠ "Succeeded"

instance (n : Node) (observations : List PodObservation) : Decidable (n.Running observations) := by
  unfold Running
  infer_instance

theorem observe_isSome {n : Node} {observations : List PodObservation} {expireAfter now : ℤ}
    (inTime : n.observation observations = none → now - n.lastHeartbeat ≤ expireAfter) :
    (n.observe observations expireAfter now).1.isSome := by
  unfold observe
  split
  · next absent =>
    rw [if_neg (not_lt.2 (inTime absent))]
    rfl
  · rfl

theorem shows_observe {n n' : Node} {observations : List PodObservation} {expireAfter now : ℤ}
    (shows : n.shows = true) (running : n.Running observations)
    (h : (n.observe observations expireAfter now).1 = some n') : n'.shows = true := by
  unfold observe at h
  split at h
  · split_ifs at h
    cases h
    exact shows
  · next obs found =>
    have phase := running obs found
    rw [if_neg (not_or.2 phase)] at h
    cases h
    exact shows

end Node

namespace ClusterState

/-- No node is kept off the list by its state. -/
def AllShow (c : ClusterState) : Prop := ∀ n ∈ c.nodes.toList, n.shows = true

variable {c : ClusterState}

theorem AllShow.pruneExpired (h : c.AllShow) (suspectAfter expireAfter now : ℤ) :
    (c.pruneExpired suspectAfter expireAfter now).1.AllShow := by
  intro n' member
  obtain ⟨n, hn, kept⟩ := List.mem_filterMap.1 member
  exact Node.shows_prune (h n hn) kept

theorem AllShow.applyHeartbeat (h : c.AllShow) (obs : HeartbeatObservation)
    (reported : Node.InTopology obs.reportedState) : (c.applyHeartbeat obs).1.AllShow := by
  have inserted {node : Node} (shows : node.shows = true) (n : Node)
      (member : n ∈ (c.nodes.insert node).toList) : n.shows = true := by
    rcases c.nodes.mem_insert.1 member with ⟨old, -⟩ | rfl
    · exact h n old
    · exact shows
  unfold ClusterState.applyHeartbeat
  cases found : c.nodes.lookup obs.nodeID with
  | none => exact inserted (Node.shows_ofHeartbeat reported)
  | some node =>
    have shows := h node (c.nodes.lookup_eq_some_iff.1 found).1
    dsimp only
    split_ifs
    · exact h
    all_goals exact inserted (Node.shows_heartbeat shows reported)

theorem AllShow.applyPodObservations (h : c.AllShow) {observations : List PodObservation}
    (running : ∀ n ∈ c.nodes.toList, n.Running observations) (expireAfter now : ℤ) :
    (c.applyPodObservations observations expireAfter now).1.AllShow := by
  intro n' member
  obtain ⟨n, hn, kept⟩ := List.mem_filterMap.1 member
  exact Node.shows_observe (h n hn) (running n hn) kept

/-- A node that can be listed, and that is not silent, is a member. -/
theorem AllShow.member (h : c.AllShow) {id : Bytes} {n : Node}
    (found : c.nodes.lookup id = some n) {expireAfter now : ℤ}
    (recent : now - n.lastHeartbeat ≤ expireAfter) :
    ∃ m ∈ c.members expireAfter now, m.nodeID = id := by
  obtain ⟨member, key⟩ := c.nodes.lookup_eq_some_iff.1 found
  have shows := h n member
  refine ⟨n.member, mem_members.2 ⟨n, ?_, ?_, rfl⟩, key⟩
  · rw [← key] at found
    exact found
  · simp only [Node.shows, Node.listed] at shows ⊢
    simp_all

/-- Whoever is not listed after a pruning that has changed nothing was not recorded before. -/
theorem AllShow.recorded_prune (h : c.AllShow) {suspectAfter expireAfter now : ℤ}
    (unchanged : (c.pruneExpired suspectAfter expireAfter now).2 = false) {id : Bytes}
    (recorded : (c.nodes.lookup id).isSome) :
    ((c.pruneExpired suspectAfter expireAfter now).1.nodes.lookup id).isSome := by
  obtain ⟨n, found⟩ := Option.isSome_iff_exists.1 recorded
  have member := (c.nodes.lookup_eq_some_iff.1 found).1
  rw [lookup_pruneExpired, found, Option.bind_some, Option.isSome_iff_ne_none]
  intro gone
  refine Bool.eq_false_iff.1 unchanged (List.any_eq_true.2 ⟨n, member, ?_⟩)
  exact Node.prune_changed (h n member) gone

end ClusterState

end Watchdog

namespace Topology

open Transition Watchdog

namespace Service

/-! ## Subscribers that are members -/

/-- Every subscriber is that of a node on record which its state does not keep off the list, and
every envelope in a channel has listed the node of the channel. -/
structure Covered (s : Service) : Prop where
  shown : ∀ id, (s.stack id).cluster.AllShow
  recorded : ∀ id, ∀ r ∈ (s.stack id).subscribers.toList,
    ((s.stack id).cluster.nodes.lookup r.nodeID).isSome
  named : s.Named
  granted : ∀ dst env, .enqueued dst env ∈ s.log → ∃ m ∈ env.members, m.nodeID = dst.nodeID

/-- The nodes with a subscriber are not silent at `t`. -/
def Heard (s : Service) (id : Bytes) (t : ℤ) : Prop :=
  ∀ r ∈ (s.stack id).subscribers.toList, ∀ n ∈ (s.stack id).cluster.nodes.lookup r.nodeID,
    t - n.lastHeartbeat ≤ s.cfg.expireAfter

namespace Covered

variable {s : Service}

theorem setEpochError (h : s.Covered) (err : Option EpochError) : (s.setEpochError err).Covered :=
  ⟨h.shown, h.recorded, h.named, h.granted⟩

theorem record (h : s.Covered) {ev : ServiceEvent}
    (granted : ∀ dst env, ev = .enqueued dst env → ∃ m ∈ env.members, m.nodeID = dst.nodeID) :
    (s.record ev).Covered where
  shown := h.shown
  recorded := h.recorded
  named := h.named
  granted dst env member := by
    rcases List.mem_append.1 member with old | new
    · exact h.granted dst env old
    · exact granted dst env (List.mem_singleton.1 new).symm

theorem setStack (h : s.Covered) {st : StackState} (shown : st.cluster.AllShow)
    (recorded : ∀ r ∈ st.subscribers.toList, (st.cluster.nodes.lookup r.nodeID).isSome)
    (named : ∀ r ∈ st.subscribers.toList,
      ∃ dst, s.ids[r.sub]? = some dst ∧ dst.stackID = st.stackID ∧ dst.nodeID = r.nodeID) :
    (s.setStack st).Covered := by
  refine ⟨fun id => ?_, fun id => ?_, fun id => ?_, h.granted⟩ <;>
    by_cases this : id = st.stackID
  · rwa [this, stack_setStack_self]
  · rw [stack_setStack_of_ne s this]
    exact h.shown id
  · rwa [this, stack_setStack_self]
  · rw [stack_setStack_of_ne s this]
    exact h.recorded id
  · rwa [this, stack_setStack_self]
  · rw [stack_setStack_of_ne s this]
    exact h.named id

/-- A stack is reviewed: it gets no new subscriber. -/
theorem review (h : s.Covered) {id : Bytes} {cluster : ClusterState}
    {subscribers : KeyedSet Registration.nodeID} (loadedEpoch : Bool) (shown : cluster.AllShow)
    (recorded : ∀ r ∈ subscribers.toList, (cluster.nodes.lookup r.nodeID).isSome)
    (fewer : ∀ r ∈ subscribers.toList, r ∈ (s.stack id).subscribers.toList) :
    (s.setStack ⟨(s.stack id).stackID, cluster, subscribers, loadedEpoch⟩).Covered := by
  refine h.setStack shown recorded fun r member => ?_
  rw [stackID_stack]
  exact h.named id r (fewer r member)

theorem stateFor (h : s.Covered) (id : Bytes) : (s.stateFor id).Covered :=
  h.review _ (h.shown id) (h.recorded id) fun _ member => member

theorem loadEpochLocked (h : s.Covered) (id : Bytes) (load : Except String ℤ) :
    (s.loadEpochLocked id load).1.Covered := by
  unfold Service.loadEpochLocked
  dsimp only
  split_ifs
  · exact h
  · exact h.review _ (h.shown id) (h.recorded id) fun _ member => member
  · split
    · exact h.setEpochError _
    · next epoch =>
      refine ((h.review _ ?_ ?_ fun _ member => member).record (by simp)).setEpochError none
      · unfold ClusterState.AllShow
        rw [ClusterState.nodes_bumpEpochAtLeast]
        exact h.shown id
      · rw [ClusterState.nodes_bumpEpochAtLeast]
        exact h.recorded id

theorem saveEpochLocked (h : s.Covered) (id : Bytes) (epoch : ℤ) (saveErr : Option String) :
    (s.saveEpochLocked id epoch saveErr).1.Covered := by
  unfold Service.saveEpochLocked
  split_ifs
  · exact h.setEpochError none
  · split
    · exact h.setEpochError _
    · exact (h.record (by simp)).setEpochError none

/-- An envelope is sent to a node that it lists. -/
theorem enqueue (h : s.Covered) {i : ℕ} {env : TopologyEnvelope}
    (listed : ∀ dst, s.ids[i]? = some dst → ∃ m ∈ env.members, m.nodeID = dst.nodeID) :
    (s.enqueue i env).Covered where
  shown id := by
    rw [stack_enqueue]
    exact h.shown id
  recorded id := by
    rw [stack_enqueue]
    exact h.recorded id
  named := by
    refine h.named.congr (fun j dst found => ?_) fun id r member => ?_
    · rwa [ids_enqueue]
    · rwa [stack_enqueue] at member
  granted dst env' member := by
    rcases s.log_enqueue i env with same | ⟨dst', found, same⟩
    · rw [same] at member
      exact h.granted dst env' member
    · rw [same] at member
      rcases List.mem_append.1 member with old | new
      · exact h.granted dst env' old
      · cases List.mem_singleton.1 new
        exact listed dst found

/-- What a service makes for the stack lists the nodes with a subscriber. -/
theorem listed (h : s.Covered) {id : Bytes} {now : ℤ} (heard : s.Heard id now)
    (reason : TopologyReason) {r : Registration} (member : r ∈ (s.stack id).subscribers.toList)
    {dst : StreamID} (found : s.ids[r.sub]? = some dst) :
    ∃ m ∈ (s.envelopeFor id reason now).members, m.nodeID = dst.nodeID := by
  obtain ⟨n, known⟩ := Option.isSome_iff_exists.1 (h.recorded id r member)
  obtain ⟨dst', found', -, node⟩ := h.named id r member
  obtain rfl := Option.some.inj (found.symm.trans found')
  rw [node]
  exact (h.shown id).member known (heard r member n known)

theorem sends (h : s.Covered) {rs : List Registration} {env : TopologyEnvelope}
    (listed : ∀ r ∈ rs, ∀ dst, s.ids[r.sub]? = some dst →
      ∃ m ∈ env.members, m.nodeID = dst.nodeID) :
    (rs.foldl (fun s r => s.enqueue r.sub env) s).Covered := by
  induction rs generalizing s with
  | nil => exact h
  | cons r rs ih =>
    refine ih (h.enqueue (listed r (.head rs))) fun r' member dst found => ?_
    rw [ids_enqueue] at found
    exact listed r' (.tail r member) dst found

theorem broadcastLocked (h : s.Covered) {id : Bytes} {io : Broadcast} (heard : s.Heard id io.now)
    (reason : TopologyReason) : (s.broadcastLocked id reason io).Covered := by
  have saved := h.saveEpochLocked id (s.envelopeFor id reason io.now).epoch io.saveErr
  unfold Service.broadcastLocked
  dsimp only
  split_ifs
  · refine saved.sends fun r member dst found => ?_
    rw [unsent_ids.saveEpochLocked] at found
    exact h.listed heard reason member found
  · exact saved

end Covered

/-! ## Nodes with a subscriber -/

variable {s : Service}

/-- The nodes of the stack that have a subscriber. -/
def attended (s : Service) (id : Bytes) : List Node :=
  (s.stack id).cluster.nodes.toList.filter fun n =>
    (s.stack id).subscribers.toList.any fun r => r.nodeID = n.nodeID

theorem mem_attended {id : Bytes} {r : Registration}
    (registered : r ∈ (s.stack id).subscribers.toList) {n : Node}
    (found : (s.stack id).cluster.nodes.lookup r.nodeID = some n) : n ∈ s.attended id := by
  obtain ⟨member, key⟩ := (s.stack id).cluster.nodes.lookup_eq_some_iff.1 found
  exact List.mem_filter.2 ⟨member, List.any_eq_true.2 ⟨r, registered, by simp [key]⟩⟩

/-- A node that a pruning leaves, before it. -/
theorem attended_before_prune {id : Bytes} {r : Registration} {now : ℤ}
    (registered : r ∈ (s.stack id).subscribers.toList) {n' : Node}
    (found : ((s.stack id).cluster.pruneExpired s.cfg.suspectAfter s.cfg.expireAfter
      now).1.nodes.lookup r.nodeID = some n') :
    ∃ n ∈ s.attended id, n.nodeID = r.nodeID ∧ n'.lastHeartbeat = n.lastHeartbeat ∧
      ¬ n.Overdue s.cfg.expireAfter now := by
  rw [ClusterState.lookup_pruneExpired] at found
  obtain ⟨n, known, kept⟩ := Option.bind_eq_some_iff.1 found
  obtain ⟨same, -, inTime⟩ := Node.prune_spec kept
  exact ⟨n, mem_attended registered known, KeyedSet.key_of_lookup _ known, same, inTime⟩

theorem attended_prune {id : Bytes} {now : ℤ} {io : Broadcast} {n' : Node}
    (attends : n' ∈ (s.pruneExpiredLocked id now io).attended id) :
    ∃ n ∈ s.attended id, n.nodeID = n'.nodeID ∧ n'.lastHeartbeat = n.lastHeartbeat ∧
      ¬ n.Overdue s.cfg.expireAfter now := by
  obtain ⟨member, subscribed⟩ := List.mem_filter.1 attends
  obtain ⟨r, registered, same⟩ := List.any_eq_true.1 subscribed
  have key := of_decide_eq_true same
  rw [cluster_pruneExpiredLocked] at member
  rw [← key]
  refine attended_before_prune ((s.mem_subscribers_prune id now io id r).1 registered).1 ?_
  rw [key]
  exact KeyedSet.lookup_of_mem _ member

theorem attended_load (s : Service) (id : Bytes) (load : Except String ℤ) :
    ((s.stateFor id).loadEpochLocked id load).1.attended id = s.attended id := by
  rw [attended, nodes_loadEpochLocked, subscribers_load, attended]

namespace Covered

theorem load (h : s.Covered) (id : Bytes) (load : Except String ℤ) :
    ((s.stateFor id).loadEpochLocked id load).1.Covered :=
  (h.stateFor id).loadEpochLocked id load

theorem pruneExpiredLocked (h : s.Covered) {id : Bytes} {now : ℤ} {io : Broadcast}
    (each : ∀ n ∈ s.attended id, n.Overdue s.cfg.expireAfter now ∨
      io.now - n.lastHeartbeat ≤ s.cfg.expireAfter) :
    (s.pruneExpiredLocked id now io).Covered := by
  have shown := (h.shown id).pruneExpired s.cfg.suspectAfter s.cfg.expireAfter now
  unfold Service.pruneExpiredLocked
  dsimp only
  split_ifs with changed
  · refine (h.review _ shown (fun r member => ?_) fun r => List.mem_of_mem_filter).broadcastLocked
      ?_ _
    · obtain ⟨m, listed, key⟩ := List.any_eq_true.1 (List.mem_filter.1 member).2
      obtain ⟨n, found, -⟩ := ClusterState.mem_members.1 listed
      rw [← of_decide_eq_true key, found]
      rfl
    · unfold Heard
      rw [stack_setStack_same]
      intro r member n' found
      obtain ⟨n, attends, -, same, inTime⟩ :=
        attended_before_prune (List.mem_of_mem_filter member) found
      rw [same]
      exact (each n attends).resolve_left inTime
  · refine h.review _ shown (fun r member => ?_) fun _ member => member
    exact (h.shown id).recorded_prune (Bool.eq_false_iff.2 changed) (h.recorded id r member)

theorem subscribe (h : s.Covered) {hb : Heartbeat} {i : ℕ} (own : s.ids[i]? = some hb.stream)
    (reported : Node.InTopology hb.state) (fresh : ¬ s.Outpaced hb) (now : ℤ) :
    (s.subscribe hb ((s.stack hb.stackID).cluster.applyHeartbeat (observation hb now)).1
      i).Covered := by
  obtain ⟨-, ⟨node, known, -⟩, others⟩ := ((s.stack hb.stackID).cluster.applyHeartbeat_spec
    (observation hb now)).resolve_left fun stale => fresh ((s.stale_iff_outpaced hb now).1 stale.1)
  have shown := (h.shown hb.stackID).applyHeartbeat (observation hb now) reported
  have named := h.named.subscribe own ((s.stack hb.stackID).cluster.applyHeartbeat
    (observation hb now)).1
  refine ⟨fun id => ?_, fun id r member => ?_, named, fun dst env member => ?_⟩
  · by_cases this : id = hb.stackID
    · rwa [this, stack_subscribe]
    · rw [stack_subscribe_of_ne s this]
      exact h.shown id
  · by_cases this : id = hb.stackID
    · subst this
      rw [stack_subscribe] at member ⊢
      rcases KeyedSet.mem_insert _ |>.1 member with ⟨old, other⟩ | rfl
      · rw [others r.nodeID other]
        exact h.recorded _ r old
      · exact Option.isSome_iff_exists.2 ⟨node, known⟩
    · rw [stack_subscribe_of_ne s this] at member ⊢
      exact h.recorded id r member
  · rw [log_subscribe] at member
    exact h.granted dst env (by simpa using member)

theorem applyHeartbeat (h : s.Covered) {hb : Heartbeat} {i : ℕ} {now : ℤ} {event : Broadcast}
    (own : s.ids[i]? = some hb.stream) (reported : Node.InTopology hb.state)
    (quick : event.now - now ≤ s.cfg.expireAfter)
    (others : ∀ n ∈ s.attended hb.stackID, n.nodeID = hb.nodeID ∨
      event.now - n.lastHeartbeat ≤ s.cfg.expireAfter) :
    (s.applyHeartbeat hb i now event).Covered := by
  by_cases late : s.Outpaced hb
  · rwa [applyHeartbeat_of_outpaced late]
  have registered := h.subscribe own reported late now
  have current : ((s.stack hb.stackID).cluster.applyHeartbeat (observation hb now)).2 ≠ .stale :=
    fun stale => late ((s.stale_iff_outpaced hb now).1 stale)
  have heard : (s.subscribe hb ((s.stack hb.stackID).cluster.applyHeartbeat
      (observation hb now)).1 i).Heard hb.stackID event.now := by
    unfold Heard
    rw [stack_subscribe, cfg_subscribe]
    intro r member n found
    by_cases this : r.nodeID = hb.nodeID
    · rw [this] at found
      rw [ClusterState.lastHeartbeat_applyHeartbeat current found]
      exact quick
    · rw [ClusterState.lookup_applyHeartbeat_of_ne _ this] at found
      have old := ((KeyedSet.mem_insert _).1 member).resolve_right fun new => this (by rw [new])
      refine (others n (mem_attended old.1 found)).resolve_left fun same => this ?_
      exact (KeyedSet.key_of_lookup _ found).symm.trans same
  unfold Service.applyHeartbeat
  dsimp only
  split
  · exact h
  · exact registered.broadcastLocked heard _
  · split_ifs
    · unfold sendLatestLocked
      split_ifs
      · exact registered
      · refine registered.enqueue fun dst found =>
          registered.listed heard _ (r := ⟨hb.nodeID, i⟩) ?_ found
        rw [stack_subscribe, KeyedSet.mem_insert]
        exact .inr rfl
    · exact registered

end Covered

/-! ## Steps -/

/-- Nobody with a subscriber is silent when the heartbeat makes its envelopes, unless the call
removes it before, and the node does not report that it has been removed or cannot be reached. -/
structure AttendedBeat (s : Service) (hb : Heartbeat) (io : HeartbeatScript) : Prop where
  reported : Node.InTopology hb.state
  quick : io.event.now - io.now ≤ s.cfg.expireAfter
  each : ∀ n ∈ s.attended hb.stackID, n.Overdue s.cfg.expireAfter io.now ∨
    io.prune.now - n.lastHeartbeat ≤ s.cfg.expireAfter ∧
      (n.nodeID = hb.nodeID ∨ io.event.now - n.lastHeartbeat ≤ s.cfg.expireAfter)

instance (s : Service) (hb : Heartbeat) (io : HeartbeatScript) : Decidable (s.AttendedBeat hb io) :=
  decidable_of_iff (Node.InTopology hb.state ∧ io.event.now - io.now ≤ s.cfg.expireAfter ∧
    ∀ n ∈ s.attended hb.stackID, n.Overdue s.cfg.expireAfter io.now ∨
      io.prune.now - n.lastHeartbeat ≤ s.cfg.expireAfter ∧
        (n.nodeID = hb.nodeID ∨ io.event.now - n.lastHeartbeat ≤ s.cfg.expireAfter))
    ⟨fun ⟨reported, quick, each⟩ => ⟨reported, quick, each⟩,
      fun h => ⟨h.reported, h.quick, h.each⟩⟩

namespace Covered

theorem registerHeartbeat (h : s.Covered) {hb : Heartbeat} {i : ℕ} {io : HeartbeatScript}
    (own : s.ids[i]? = some hb.stream) (attended : s.AttendedBeat hb io) :
    (s.registerHeartbeat hb i io).Covered := by
  have loaded := h.load hb.stackID io.load
  have cfg : ((s.stateFor hb.stackID).loadEpochLocked hb.stackID io.load).1.cfg = s.cfg :=
    cfg_loadEpochLocked _ _ _
  have each := attended.each
  have quick := attended.quick
  rw [← s.attended_load hb.stackID io.load, ← cfg] at each
  rw [← cfg] at quick
  unfold Service.registerHeartbeat
  dsimp only
  split_ifs
  · have pruned := loaded.pruneExpiredLocked fun n attends => (each n attends).imp_right And.left
    have ids := (ids_runPart _ (.prune hb.stackID io.now io.prune)).trans
      (ids_runPart s (.load hb.stackID io.load))
    rw [← ids] at own
    rw [← cfg_pruneExpiredLocked _ hb.stackID io.now io.prune] at quick
    refine pruned.applyHeartbeat own attended.reported quick fun n' attends => ?_
    obtain ⟨n, before, key, same, inTime⟩ := attended_prune attends
    rw [← key, same, cfg_pruneExpiredLocked]
    exact ((each n before).resolve_left inTime).2
  · exact loaded

theorem connect (h : s.Covered) (id : StreamID) : (s.connect id).Covered where
  shown := h.shown
  recorded := h.recorded
  named := h.named.congr (fun _ _ found => (Move.connect id).own found) fun _ _ member => member
  granted := h.granted

theorem watch (h : s.Covered) {hb : Heartbeat} {io : HeartbeatScript}
    (attended : s.AttendedBeat hb io) : (s.watch hb io).Covered := by
  unfold Service.watch
  split_ifs
  · exact h
  · exact (h.connect hb.stream).registerHeartbeat (s.ids_connect hb.stream)
      ⟨attended.reported, attended.quick, attended.each⟩
  · exact h

theorem receiveHeartbeat (h : s.Covered) {i : ℕ} {sub : Subscriber} (found : s.subs[i]? = some sub)
    {hb : Heartbeat} {io : HeartbeatScript} (attended : s.AttendedBeat hb io) :
    (s.receiveHeartbeat i sub hb io).Covered := by
  unfold Service.receiveHeartbeat
  split_ifs with other
  · exact h
  · exact h
  · refine h.registerHeartbeat ?_ attended
    rw [ids, List.getElem?_map, found, not_not.1 other]
    rfl

theorem unregister (h : s.Covered) (i : ℕ) (sub : Subscriber) : (s.unregister i sub).Covered := by
  have made := h.stateFor sub.id.stackID
  unfold Service.unregister
  dsimp only
  split
  · split_ifs
    · refine h.review _ (h.shown _) (fun r member => ?_) fun r => List.mem_of_mem_filter
      exact h.recorded _ r (List.mem_of_mem_filter member)
    · exact made
  · exact made

/-- Pods are observed that have not ended, and no node with a subscriber is dropped. -/
theorem observe (h : s.Covered) {id : Bytes} {observations : List PodObservation} {now : ℤ}
    {io : Broadcast}
    (running : ∀ n ∈ (s.stack id).cluster.nodes.toList, n.Running observations)
    (each : ∀ n ∈ s.attended id,
      (n.observation observations = none → now - n.lastHeartbeat ≤ s.cfg.expireAfter) ∧
        io.now - n.lastHeartbeat ≤ s.cfg.expireAfter) :
    (s.observe id observations now io).Covered := by
  have shown := (h.shown id).applyPodObservations running s.cfg.expireAfter now
  have recorded : ∀ r ∈ (s.stack id).subscribers.toList,
      ((((s.stack id).cluster.applyPodObservations observations s.cfg.expireAfter
        now).1).nodes.lookup r.nodeID).isSome := by
    intro r member
    obtain ⟨n, known⟩ := Option.isSome_iff_exists.1 (h.recorded id r member)
    rw [ClusterState.lookup_applyPodObservations, known, Option.bind_some]
    exact Node.observe_isSome (each n (mem_attended member known)).1
  unfold Service.observe
  dsimp only
  split_ifs
  · refine (h.review _ shown recorded fun _ member => member).broadcastLocked ?_ _
    unfold Heard
    rw [stack_setStack_same]
    intro r member n' found
    rw [ClusterState.lookup_applyPodObservations] at found
    obtain ⟨n, known, kept⟩ := Option.bind_eq_some_iff.1 found
    rw [(Node.observe_spec kept).1]
    exact (each n (mem_attended member known)).2
  · exact h.review _ shown recorded fun _ member => member

theorem observePods (h : s.Covered) {id : Bytes} {observations : List PodObservation}
    (load : Except String ℤ) {now : ℤ} {io : Broadcast}
    (running : ∀ n ∈ (s.stack id).cluster.nodes.toList, n.Running observations)
    (each : ∀ n ∈ s.attended id,
      (n.observation observations = none → now - n.lastHeartbeat ≤ s.cfg.expireAfter) ∧
        io.now - n.lastHeartbeat ≤ s.cfg.expireAfter) :
    (s.observePods id observations load now io).Covered := by
  have loaded := h.load id load
  have cfg : ((s.stateFor id).loadEpochLocked id load).1.cfg = s.cfg := cfg_loadEpochLocked _ _ _
  rw [← s.nodes_loadEpochLocked id load] at running
  rw [← s.attended_load id load, ← cfg] at each
  unfold Service.observePods
  split
  · dsimp only
    split
    · rw [← cfg]
      exact loaded.observe running each
    · exact loaded
  · exact h

theorem answer (h : s.Covered) (id : Bytes) (io : Broadcast) : (s.answer id io).Covered := by
  have saved := h.saveEpochLocked id (s.envelopeFor id .bookworm io.now).epoch io.saveErr
  unfold Service.answer
  dsimp only
  split_ifs
  · exact saved.record (by simp)
  · exact saved

theorem getTopology (h : s.Covered) {id : Bytes} (load : Except String ℤ) {now : ℤ}
    {prune : Broadcast} (io : Broadcast)
    (each : ∀ n ∈ s.attended id, n.Overdue s.cfg.expireAfter now ∨
      prune.now - n.lastHeartbeat ≤ s.cfg.expireAfter) :
    (s.getTopology id load now prune io).Covered := by
  have loaded := h.load id load
  have cfg : ((s.stateFor id).loadEpochLocked id load).1.cfg = s.cfg := cfg_loadEpochLocked _ _ _
  rw [← s.attended_load id load, ← cfg] at each
  unfold Service.getTopology
  split_ifs
  · exact h
  · dsimp only
    split
    · exact (loaded.pruneExpiredLocked each).answer id io
    · exact loaded
  · exact h.record (by simp)

end Covered

theorem covered_new (cfg : Config) : (new cfg).Covered where
  shown _ _ member := absurd member List.not_mem_nil
  recorded _ _ member := absurd member List.not_mem_nil
  named _ _ member := absurd member List.not_mem_nil
  granted _ _ member := absurd member List.not_mem_nil

end Service

/-- No node with a subscriber is excluded: it does not report its removal, its pod has not ended and
is not missing for too long, and it is not silent when an envelope is made, unless the step itself
removes it before. -/
def Attended (s : Server) : ServerAction → Prop
  | .watch hb io => s.service.AttendedBeat hb io
  | .receiveHeartbeat _ hb io => s.service.AttendedBeat hb io
  | .observePods id observations _ now io =>
    (∀ n ∈ (s.service.stack id).cluster.nodes.toList, n.Running observations) ∧
      ∀ n ∈ s.service.attended id,
        (n.observation observations = none →
          now - n.lastHeartbeat ≤ s.service.cfg.expireAfter) ∧
        io.now - n.lastHeartbeat ≤ s.service.cfg.expireAfter
  | .getTopology id _ now prune _ =>
    ∀ n ∈ s.service.attended id, n.Overdue s.service.cfg.expireAfter now ∨
      prune.now - n.lastHeartbeat ≤ s.service.cfg.expireAfter
  | .tick io =>
    match s.tick with
    | some ⟨some now, id :: _⟩ =>
      ∀ n ∈ s.service.attended id, n.Overdue s.service.cfg.expireAfter now ∨
        io.now - n.lastHeartbeat ≤ s.service.cfg.expireAfter
    | some ⟨none, id :: _⟩ =>
      ∀ n ∈ s.service.attended id, io.now - n.lastHeartbeat ≤ s.service.cfg.expireAfter
    | _ => True
  | _ => True

instance (s : Server) : DecidablePred (Attended s)
  | .watch .. | .receiveHeartbeat .. | .observePods .. | .getTopology .. => by
    unfold Attended
    infer_instance
  | .tick io => by
    unfold Attended
    dsimp only
    generalize s.tick = ticking
    match ticking with
    | some ⟨some now, id :: _⟩ =>
      exact inferInstanceAs (Decidable (∀ n ∈ s.service.attended id, _ ∨ _))
    | some ⟨none, id :: _⟩ => exact inferInstanceAs (Decidable (∀ n ∈ s.service.attended id, _))
    | none | some ⟨some _, []⟩ | some ⟨none, []⟩ => exact isTrue trivial
  | .receiveEnvelope _ | .unregister _ | .reaperCheck | .bookwormCheck | .reaperLock ..
  | .bookwormLock _ => isTrue trivial

theorem Service.Covered.receiveEnvelope {s : Service} (h : s.Covered) {i : ℕ} {sub : Subscriber}
    (found : s.subs[i]? = some sub) : (s.receiveEnvelope i sub).Covered where
  shown := h.shown
  recorded := h.recorded
  named := h.named.congr (fun _ _ own => (Move.channel i sub _ _ found).own own)
    fun _ _ member => member
  granted := h.granted

theorem Service.Covered.step {s u : Server} {a : ServerAction} (h : s.service.Covered)
    (attended : Attended s a) (enabled : s.step a = some u) : u.service.Covered := by
  cases Server.steps_of_step enabled with
  | watch => exact h.watch attended
  | receiveHeartbeat found => exact h.receiveHeartbeat found attended
  | receiveEnvelope found => exact h.receiveEnvelope found
  | unregister => exact h.unregister _ _
  | observePods => exact h.observePods _ attended.1 attended.2
  | getTopology => exact h.getTopology _ _ attended
  | reaperCheck | bookwormCheck | reaperLock | reaperStandby | bookwormLock | bookwormStandby
  | unlock => exact h
  | @tick io reaper id rest ticking =>
    simp only [Attended, ticking] at attended
    cases reaper with
    | some now => exact h.pruneExpiredLocked attended
    | none =>
      refine h.broadcastLocked (fun r member n found => ?_) _
      exact attended n (Service.mem_attended member found)

/-- Where no node with a subscriber is excluded, every envelope that is put into a channel lists the
node of the channel. -/
theorem only_members_granted {cfg : Config} {as : List ServerAction} {s : Server}
    (run : Run Server.step Attended (.new cfg) as s) {dst : StreamID} {env : TopologyEnvelope}
    (sent : .enqueued dst env ∈ s.service.log) : ∃ m ∈ env.members, m.nodeID = dst.nodeID :=
  (run.invariant (fun s => s.service.Covered) (Service.covered_new cfg)
    fun _ _ _ h attended enabled => h.step attended enabled).granted dst env sent

/-- The role, the listed nodes and the end of the lease in the envelopes of a channel. -/
def Service.grants (s : Service) (i : ℕ) : List (Node.WatchdogRole × List Bytes × ℤ) :=
  (s.channel i).map fun env =>
    (env.watchdogRole, env.members.map Member.nodeID, env.validUntilUnixMs)

/-- Node 1 falls silent and is removed; node 2 is told. -/
def silence : List ServerAction :=
  .watch (beatOf 1) (beatAt 0) :: .watch (beatOf 2) (beatAt 0) ::
    .receiveHeartbeat 1 (beatOf 2) (beatAt 15) :: .receiveHeartbeat 1 (beatOf 2) (beatAt 31) ::
    bookwormAt 40

theorem only_members_granted_silence :
    ∃ s, Run Server.step Attended (.new standardConfig) silence s ∧
      (s.service.grants 1).getLast? = some (.primary, [[2]], 70000) ∧
      ∀ env, .enqueued (beatOf 2).stream env ∈ s.service.log →
        ∃ m ∈ env.members, m.nodeID = [2] := by
  obtain ⟨s, run, told⟩ := Run.exists_of_exec Server.step Attended (.new standardConfig) silence
    (fun s => (s.service.grants 1).getLast? = some (.primary, [[2]], 70000)) (by decide +kernel)
  exact ⟨s, run, told, fun env sent => only_members_granted run sent⟩

/-- The pod of node 1 has failed.  The node is told so by an envelope that does not list it and
extends its lease, and so does every tick of the bookworm after that. -/
theorem excluded_node_is_granted :
    ∃ s, Run Server.step anyAction (.new standardConfig)
        (.watch (beatOf 1) (beatAt 0) ::
          .observePods [97] [⟨[1], [1], false, "Failed"⟩] (.ok 0) 1000000000 ⟨1000000000, none⟩ ::
          bookwormAt 10) s ∧
      s.service.grants 0 = [(.primary, [[1]], 30000), (.primary, [], 31000),
        (.primary, [], 40000)] :=
  Run.exists_of_exec _ _ _ _ _ (by decide +kernel)

end Topology

end OlricStack
