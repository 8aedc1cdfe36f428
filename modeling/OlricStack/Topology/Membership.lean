import OlricStack.Topology.Durable

/-!
# One epoch, one membership

The members in an envelope are a function of the recorded nodes and of the clock: a node that has
been silent for too long is left out even before anything has removed it and counted up the epoch.
So two envelopes of one epoch may list different members (`silent_node_is_left_out`).  Where no
envelope is made while there is such a node, they list the same (`same_epoch_same_members`).
-/

namespace OlricStack

namespace Watchdog

/-! ## Silent nodes -/

namespace Node

/-- The node has been heard of recently at `t`, or its state keeps it off the list anyway. -/
def Recent (n : Node) (expireAfter t : ℤ) : Prop :=
  n.shows = true → t - n.lastHeartbeat ≤ expireAfter

/-- The pruning at `now` removes the node: it is overdue, and in a state that can expire. -/
def Overdue (n : Node) (expireAfter now : ℤ) : Prop :=
  now - n.lastHeartbeat > expireAfter ∧ n.state.next .expire ≠ none

instance (n : Node) (expireAfter t : ℤ) : Decidable (n.Recent expireAfter t) := by
  unfold Recent
  infer_instance

instance (n : Node) (expireAfter now : ℤ) : Decidable (n.Overdue expireAfter now) := by
  unfold Overdue
  infer_instance

/-- Only a heartbeat brings a node back onto the list. -/
theorem shows_of_transition {n : Node} {event : NodeEvent} (silent : event ≠ .heartbeat)
    (h : (n.transition event).1.shows = true) : n.shows = true := by
  unfold transition at h
  cases state : n.state <;> cases event <;>
    simp_all [NodeState.next, shows]

theorem prune_spec {n n' : Node} {suspectAfter expireAfter now : ℤ}
    (h : (n.prune suspectAfter expireAfter now).1 = some n') :
    n'.lastHeartbeat = n.lastHeartbeat ∧ (n'.shows = true → n.shows = true) ∧
      ¬n.Overdue expireAfter now := by
  refine ⟨prune_lastHeartbeat h, ?_⟩
  unfold prune at h
  dsimp only at h
  split_ifs at h with late kept
  · cases h
    refine ⟨fun shows => ?_, ?_⟩
    · exact shows_of_transition (by simp) (shows_of_transition (by simp) shows)
    · rintro ⟨-, declared⟩
      refine kept ?_
      unfold transition
      cases state : n.state <;> simp_all [NodeState.next]
  · cases h
    exact ⟨shows_of_transition (by simp), fun o => late o.1⟩
  · cases h
    exact ⟨fun shows => shows, fun o => late o.1⟩

theorem observe_spec {n n' : Node} {observations : List PodObservation} {expireAfter now : ℤ}
    (h : (n.observe observations expireAfter now).1 = some n') :
    n'.lastHeartbeat = n.lastHeartbeat ∧ (n'.shows = true → n.shows = true) ∧
      ¬(n.observation observations = none ∧ now - n.lastHeartbeat > expireAfter) := by
  unfold observe at h
  split at h
  · next absent =>
    split_ifs at h with late
    cases h
    exact ⟨rfl, fun shows => shows, fun o => late o.2⟩
  · next obs found =>
    dsimp only at h
    split_ifs at h
    · cases h
      refine ⟨transition_lastHeartbeat n .terminal, fun shows => ?_, by simp [found]⟩
      exact shows_of_transition (by simp) shows
    · cases h
      exact ⟨rfl, fun shows => shows, by simp [found]⟩

theorem heartbeat_lastHeartbeat (n : Node) (obs : HeartbeatObservation) :
    (n.heartbeat obs).1.lastHeartbeat = obs.seenAt := by
  unfold heartbeat applyHeartbeatState
  dsimp only
  split_ifs
  · rfl
  · split <;> rw [transition_lastHeartbeat]

end Node

namespace ClusterState

variable {c : ClusterState} {suspectAfter expireAfter now t : ℤ}

theorem fresh_pruneExpired
    (h : ∀ n ∈ c.nodes.toList, n.Overdue expireAfter now ∨ n.Recent expireAfter t) :
    (c.pruneExpired suspectAfter expireAfter now).1.Fresh expireAfter t := by
  intro n' hn' shows
  obtain ⟨n, hn, kept⟩ := List.mem_filterMap.1 hn'
  obtain ⟨same, shown, inTime⟩ := Node.prune_spec kept
  rw [same]
  exact (h n hn).resolve_left inTime (shown shows)

theorem fresh_applyPodObservations {observations : List PodObservation}
    (h : ∀ n ∈ c.nodes.toList, n.observation observations = none ∧
      now - n.lastHeartbeat > expireAfter ∨ n.Recent expireAfter t) :
    (c.applyPodObservations observations expireAfter now).1.Fresh expireAfter t := by
  intro n' hn' shows
  obtain ⟨n, hn, kept⟩ := List.mem_filterMap.1 hn'
  obtain ⟨same, shown, observed⟩ := Node.observe_spec kept
  rw [same]
  exact (h n hn).resolve_left observed (shown shows)

/-- A heartbeat that is not stale is on record. -/
theorem lastHeartbeat_applyHeartbeat {obs : HeartbeatObservation}
    (current : (c.applyHeartbeat obs).2 ≠ .stale) {n : Node}
    (found : (c.applyHeartbeat obs).1.nodes.lookup obs.nodeID = some n) :
    n.lastHeartbeat = obs.seenAt := by
  unfold applyHeartbeat at current found
  cases known : c.nodes.lookup obs.nodeID with
  | none =>
    rw [known] at found
    obtain rfl := Option.some.inj ((c.nodes.lookup_insert_self (.ofHeartbeat obs)).symm.trans found)
    rfl
  | some node =>
    rw [known] at current found
    dsimp only at current found
    split_ifs at current found with older
    · exact absurd rfl current
    all_goals
      have key := (node.heartbeat_identity obs).1.trans (c.nodes.key_of_lookup known)
      rw [← key] at found
      obtain rfl := Option.some.inj ((c.nodes.lookup_insert_self _).symm.trans found)
      exact node.heartbeat_lastHeartbeat obs

theorem fresh_applyHeartbeat {obs : HeartbeatObservation}
    (current : (c.applyHeartbeat obs).2 ≠ .stale)
    (others : ∀ n ∈ c.nodes.toList, n.nodeID = obs.nodeID ∨ n.Recent expireAfter t)
    (own : t - obs.seenAt ≤ expireAfter) : (c.applyHeartbeat obs).1.Fresh expireAfter t := by
  intro n member shows
  have found := KeyedSet.lookup_of_mem _ member
  by_cases this : n.nodeID = obs.nodeID
  · rw [this] at found
    rw [lastHeartbeat_applyHeartbeat current found]
    exact own
  · rw [c.lookup_applyHeartbeat_of_ne this] at found
    exact (others n (c.nodes.lookup_eq_some_iff.1 found).1).resolve_left this shows

end ClusterState

end Watchdog

namespace Topology

open Transition Watchdog

/-! ## Published envelopes -/

namespace Service

/-- The envelopes that have been put into a channel or returned by `GetTopology`. -/
def published (s : Service) : List TopologyEnvelope := s.log.filterMap ServiceEvent.published

/-- The envelopes of the present epoch list the roster, and those of one epoch list the same. -/
structure Rostered (s : Service) : Prop where
  current : ∀ env ∈ s.published, env.watchdogRole = .primary →
    env.epoch ≤ (s.stack env.stackID).cluster.epoch ∧
      (env.epoch = (s.stack env.stackID).cluster.epoch →
        env.members.map Member.shown = (s.stack env.stackID).cluster.roster)
  agree : ∀ env ∈ s.published, ∀ env' ∈ s.published, env.watchdogRole = .primary →
    env'.watchdogRole = .primary → env.stackID = env'.stackID → env.epoch = env'.epoch →
    env.members.map Member.shown = env'.members.map Member.shown

namespace Rostered

variable {s s' : Service}

/-- Nothing is published, and rosters change with the epoch only. -/
theorem keep (h : s.Rostered) (same : s'.published = s.published)
    (follows : ∀ id, (s.stack id).cluster.epoch ≤ (s'.stack id).cluster.epoch ∧
      ((s'.stack id).cluster.epoch = (s.stack id).cluster.epoch →
        (s'.stack id).cluster.roster = (s.stack id).cluster.roster)) : s'.Rostered := by
  refine ⟨fun env member primary => ?_, by rw [same]; exact h.agree⟩
  rw [same] at member
  obtain ⟨le, roster⟩ := h.current env member primary
  obtain ⟨up, kept⟩ := follows env.stackID
  refine ⟨le.trans up, fun now => ?_⟩
  have unmoved : (s'.stack env.stackID).cluster.epoch = (s.stack env.stackID).cluster.epoch := by
    omega
  rw [kept unmoved]
  exact roster (now.trans unmoved)

/-- An envelope is published; if it is from the primary, it is of the present epoch and lists the
roster. -/
theorem publish (h : s.Rostered) (new : TopologyEnvelope)
    (published : s'.published = s.published ++ [new]) (unmoved : ∀ id, s'.stack id = s.stack id)
    (made : new.watchdogRole = .primary → new.epoch = (s.stack new.stackID).cluster.epoch ∧
      new.members.map Member.shown = (s.stack new.stackID).cluster.roster) : s'.Rostered := by
  have now env (member : env ∈ s.published ++ [new]) (primary : env.watchdogRole = .primary) :
      env.epoch ≤ (s.stack env.stackID).cluster.epoch ∧
        (env.epoch = (s.stack env.stackID).cluster.epoch →
          env.members.map Member.shown = (s.stack env.stackID).cluster.roster) := by
    rcases List.mem_append.1 member with member | member
    · exact h.current env member primary
    · obtain rfl := List.mem_singleton.1 member
      exact ⟨(made primary).1.le, fun _ => (made primary).2⟩
  refine ⟨fun env member primary => ?_, fun env member env' member' primary primary' id epoch => ?_⟩
  · rw [unmoved]
    exact now env (published ▸ member) primary
  · rw [published] at member member'
    have roster := (now env member primary).2
    have roster' := (now env' member' primary').2
    rcases List.mem_append.1 member with old | is
    · rcases List.mem_append.1 member' with old' | is'
      · exact h.agree env old env' old' primary primary' id epoch
      · obtain rfl := List.mem_singleton.1 is'
        rw [id, epoch] at roster
        rw [roster (made primary').1, (made primary').2]
    · obtain rfl := List.mem_singleton.1 is
      rw [← id, ← epoch] at roster'
      rw [(made primary).2, roster' (made primary).1]

theorem setStack (h : s.Rostered) (st : StackState)
    (follows : (s.stack st.stackID).cluster.epoch ≤ st.cluster.epoch ∧
      (st.cluster.epoch = (s.stack st.stackID).cluster.epoch →
        st.cluster.roster = (s.stack st.stackID).cluster.roster)) : (s.setStack st).Rostered := by
  refine h.keep rfl fun id => ?_
  by_cases same : id = st.stackID
  · rw [same, stack_setStack_self]
    exact follows
  · rw [stack_setStack_of_ne s same]
    exact ⟨le_rfl, fun _ => rfl⟩

theorem act {fresh : ClusterState → ℤ → Prop} (h : s.Rostered)
    (recent : ∀ c now, fresh c now → c.Fresh s.cfg.expireAfter now) (a : Act fresh s s') :
    s'.Rostered := by
  have unchanged : ∀ id, (s.stack id).cluster.epoch ≤ (s.stack id).cluster.epoch ∧
      ((s.stack id).cluster.epoch = (s.stack id).cluster.epoch →
        (s.stack id).cluster.roster = (s.stack id).cluster.roster) :=
    fun _ => ⟨le_rfl, fun _ => rfl⟩
  have made id reason now (timely : fresh (s.stack id).cluster now) :
      (s.envelopeFor id reason now).members.map Member.shown = (s.stack id).cluster.roster :=
    ClusterState.members_shown (recent _ _ timely)
  cases a with
  | error => exact h.keep rfl unchanged
  | review st follows => exact h.setStack st ⟨follows.epoch, follows.roster⟩
  | loaded => exact h.keep (by simp [published, record, ServiceEvent.published]) unchanged
  | saved => exact h.keep (by simp [published, record, ServiceEvent.published]) unchanged
  | subscribe hb i now =>
    refine h.keep ?_ fun id => ?_
    · rw [published, log_subscribe]
      simp [published, ServiceEvent.published]
    · by_cases same : id = hb.stackID
      · rw [same, stack_subscribe]
        exact ClusterState.roster_applyHeartbeat _ _
      · rw [stack_subscribe_of_ne s same]
        exact unchanged id
  | send id r reason now member timely =>
    obtain same | ⟨dst, -, log⟩ := s.log_enqueue r.sub (s.envelopeFor id reason now)
    · exact h.keep (by rw [published, same, published]) fun id => by
        rw [stack_enqueue]
        exact unchanged id
    · refine h.publish _ ?_ (fun id => s.stack_enqueue _ _ id)
        fun _ => ⟨rfl, made id reason now timely⟩
      rw [published, log]
      simp [published, ServiceEvent.published]
  | returned id reason now timely =>
    refine h.publish (s.envelopeFor id reason now) ?_ (fun _ => rfl)
      fun _ => ⟨rfl, made id reason now timely⟩
    simp [published, record, ServiceEvent.published]
  | standby id role =>
    refine h.publish (s.standbyEnvelope id) ?_ (fun _ => rfl) fun primary => ?_
    · simp [published, record, ServiceEvent.published]
    · exact absurd primary (of_decide_eq_false role)
  | connect => exact h.keep rfl unchanged

end Rostered

theorem Rostered.acts {s s' : Service} {fresh : ClusterState → ℤ → Prop} (h : s.Rostered)
    (recent : ∀ c now, fresh c now → c.Fresh s.cfg.expireAfter now) (as : Acts fresh s s') :
    s'.Rostered := by
  induction as with
  | refl => exact h
  | tail before a ih =>
    refine ih.act ?_ a
    rw [Moves.cfg_eq (Acts.moves before)]
    exact recent

end Service

/-! ## Punctual steps -/

/-- No envelope of the heartbeat is made while a node is silent for too long, except for the nodes
that the call itself prunes before. -/
def PunctualBeat (s : Service) (hb : Heartbeat) (io : HeartbeatScript) : Prop :=
  (∀ n ∈ (s.stack hb.stackID).cluster.nodes.toList, n.Overdue s.cfg.expireAfter io.now ∨
    n.Recent s.cfg.expireAfter io.prune.now ∧
      (n.nodeID = hb.nodeID ∨ n.Recent s.cfg.expireAfter io.event.now)) ∧
  io.event.now - io.now ≤ s.cfg.expireAfter

/-- No envelope is made while a node is silent for too long, except for the nodes that the step
itself removes before. -/
def Punctual (s : Server) : ServerAction → Prop
  | .watch hb io => PunctualBeat s.service hb io
  | .receiveHeartbeat _ hb io => PunctualBeat s.service hb io
  | .observePods id observations _ now io =>
    ∀ n ∈ (s.service.stack id).cluster.nodes.toList, n.observation observations = none ∧
      now - n.lastHeartbeat > s.service.cfg.expireAfter ∨
        n.Recent s.service.cfg.expireAfter io.now
  | .getTopology id _ now prune io =>
    ∀ n ∈ (s.service.stack id).cluster.nodes.toList,
      n.Overdue s.service.cfg.expireAfter now ∨
        n.Recent s.service.cfg.expireAfter prune.now ∧ n.Recent s.service.cfg.expireAfter io.now
  | .tick io =>
    match s.tick with
    | some ⟨some now, id :: _⟩ =>
      ∀ n ∈ (s.service.stack id).cluster.nodes.toList,
        n.Overdue s.service.cfg.expireAfter now ∨ n.Recent s.service.cfg.expireAfter io.now
    | some ⟨none, id :: _⟩ =>
      ∀ n ∈ (s.service.stack id).cluster.nodes.toList, n.Recent s.service.cfg.expireAfter io.now
    | _ => True
  | _ => True

instance (s : Service) (hb : Heartbeat) (io : HeartbeatScript) :
    Decidable (PunctualBeat s hb io) := by
  unfold PunctualBeat
  infer_instance

instance (s : Server) : DecidablePred (Punctual s)
  | .watch .. | .receiveHeartbeat .. | .observePods .. | .getTopology .. => by
    unfold Punctual
    infer_instance
  | .tick io => by
    unfold Punctual
    dsimp only
    split <;> infer_instance
  | .receiveEnvelope _ | .unregister _ | .reaperCheck | .bookwormCheck | .reaperLock ..
  | .bookwormLock _ => isTrue trivial

/-- All nodes that could be listed are recent. -/
def allRecent (cfg : Config) (c : ClusterState) (now : ℤ) : Prop := c.Fresh cfg.expireAfter now

theorem PunctualBeat.timely {s : Service} {hb : Heartbeat} {io : HeartbeatScript}
    (h : PunctualBeat s hb io) {c : ClusterState}
    (nodes : c.nodes = (s.stack hb.stackID).cluster.nodes) :
    Service.BeatTimely (allRecent s.cfg) s.cfg c hb io := by
  obtain ⟨each, quick⟩ := h
  rw [← nodes] at each
  refine ⟨fun _ => ClusterState.fresh_pruneExpired fun n hn => (each n hn).imp_right And.left,
    fun current => ClusterState.fresh_applyHeartbeat current (fun n' hn' => ?_) quick⟩
  obtain ⟨n, hn, kept⟩ := List.mem_filterMap.1 hn'
  obtain ⟨same, shown, inTime⟩ := Node.prune_spec kept
  refine ((each n hn).resolve_left inTime).2.imp (fun own => ?_) fun recent shows => ?_
  · exact (Node.prune_identity kept).1.trans own
  · rw [same]
    exact recent (shown shows)

theorem Punctual.timely {s : Server} {a : ServerAction} (h : Punctual s a) :
    s.Timely allRecent a := by
  cases a with
  | watch hb io => exact fun c nodes => PunctualBeat.timely h nodes
  | receiveHeartbeat i hb io => exact fun c nodes => PunctualBeat.timely h nodes
  | observePods id observations load now io =>
    intro c nodes
    refine ClusterState.fresh_applyPodObservations ?_
    rw [nodes]
    exact h
  | getTopology id load now prune io =>
    intro c nodes
    simp only [Punctual, ← nodes] at h
    exact ⟨fun _ => ClusterState.fresh_pruneExpired fun n hn => (h n hn).imp_right And.left,
      ClusterState.fresh_pruneExpired fun n hn => (h n hn).imp_right And.right⟩
  | tick io =>
    simp only [Punctual] at h
    simp only [Server.Timely]
    split
    · next ticking =>
      rw [ticking] at h
      exact fun _ => ClusterState.fresh_pruneExpired h
    · next ticking =>
      rw [ticking] at h
      exact h
    · trivial
  | receiveEnvelope | unregister | reaperCheck | bookwormCheck | reaperLock | bookwormLock =>
    trivial

/-- Where no envelope is made while a node is silent for too long, all primary envelopes of a stack
that carry the same epoch list the same members. -/
theorem same_epoch_same_members {cfg : Config} {as : List ServerAction} {s : Server}
    (run : Run Server.step Punctual (.new cfg) as s) :
    ∀ env ∈ s.service.published, ∀ env' ∈ s.service.published,
      env.watchdogRole = .primary → env'.watchdogRole = .primary →
      env.stackID = env'.stackID → env.epoch = env'.epoch →
      env.members.map Member.shown = env'.members.map Member.shown := by
  have rostered : s.service.Rostered := by
    refine run.invariant (fun s => s.service.Rostered) ⟨by simp [Server.new, Service.new,
      Service.published], by simp [Server.new, Service.new, Service.published]⟩ ?_
    intro s a u h punctual enabled
    rcases Server.step_acts enabled punctual.timely with acts | ⟨i, sub, -, received⟩
    · exact h.acts (fun _ _ recent => recent) acts
    · rw [received]
      exact h.keep rfl fun _ => ⟨le_rfl, fun _ => rfl⟩
  exact rostered.agree

/-- The first heartbeat of node 1 or 2 of stack 97. -/
def beatOf (node : UInt8) : Heartbeat := ⟨[97], [node], [node], [node], 1, 0, .ready, []⟩

/-- A heartbeat at a time in seconds, with a store that answers. -/
def beatAt (seconds : ℤ) : HeartbeatScript :=
  ⟨.ok 0, seconds * 1000000000, ⟨seconds * 1000000000, none⟩, ⟨seconds * 1000000000, none⟩⟩

/-- A tick of the bookworm. -/
def bookwormAt (seconds : ℤ) : List ServerAction :=
  [.bookwormCheck, .bookwormLock [[97]], .tick ⟨seconds * 1000000000, none⟩,
    .tick ⟨seconds * 1000000000, none⟩]

/-- Suspicion after 20 seconds, expiry after 30. -/
def standardConfig : Config := ⟨20000000000, 30000000000, 30000000000, [119], 1, .primary, true⟩

/-- The epochs of the published envelopes, with the nodes they list. -/
def Service.listings (s : Service) : List (ℤ × List Bytes) :=
  s.published.map fun env => (env.epoch, env.members.map Member.nodeID)

/-- Two nodes register, and the bookworm repeats what they have been told. -/
theorem same_epoch_same_members_repeated :
    ∃ s, Run Server.step Punctual (.new standardConfig)
        (.watch (beatOf 1) (beatAt 0) :: .watch (beatOf 2) (beatAt 0) :: bookwormAt 10) s ∧
      s.service.listings =
        [(1, [[1]]), (2, [[1], [2]]), (2, [[1], [2]]), (2, [[1], [2]]), (2, [[1], [2]])] ∧
      ∀ env ∈ s.service.published, ∀ env' ∈ s.service.published,
        env.watchdogRole = .primary → env'.watchdogRole = .primary →
        env.stackID = env'.stackID → env.epoch = env'.epoch →
        env.members.map Member.shown = env'.members.map Member.shown := by
  obtain ⟨s, run, listings⟩ := Run.exists_of_exec Server.step Punctual (.new standardConfig)
    (.watch (beatOf 1) (beatAt 0) :: .watch (beatOf 2) (beatAt 0) :: bookwormAt 10)
    (fun s => s.service.listings =
      [(1, [[1]]), (2, [[1], [2]]), (2, [[1], [2]]), (2, [[1], [2]]), (2, [[1], [2]])])
    (by decide +kernel)
  exact ⟨s, run, listings, same_epoch_same_members run⟩

/-- Node 1 falls silent.  The reaper suspects it at 25 seconds, with epoch 3; at 31 seconds, before
the reaper comes again, the bookworm leaves it out, still with epoch 3. -/
theorem silent_node_is_left_out :
    ∃ s, Run Server.step anyAction (.new standardConfig)
        (.watch (beatOf 1) (beatAt 0) :: .watch (beatOf 2) (beatAt 0) ::
          .receiveHeartbeat 1 (beatOf 2) (beatAt 15) :: .reaperCheck ::
          .reaperLock 25000000000 [[97]] :: .tick ⟨25000000000, none⟩ ::
          .tick ⟨25000000000, none⟩ :: bookwormAt 31) s ∧
      (s.service.published.all fun env => env.watchdogRole = .primary ∧ env.stackID = [97]) ∧
      (3, [[1], [2]]) ∈ s.service.listings ∧ (3, [[2]]) ∈ s.service.listings :=
  Run.exists_of_exec _ _ _ _ _ (by decide +kernel)

end Topology

end OlricStack
