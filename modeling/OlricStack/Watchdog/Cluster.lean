import Mathlib.Data.List.Sort
import OlricStack.Lib.KeyedSet
import OlricStack.Store.Record

/-!
# The watchdog's view of a stack

`ClusterState` of `internal/watchdog/state.go`: the nodes of one stack with their lifecycle, moved
by heartbeats, pod observations and the passing of time, and the epoch that counts the changes.
Times are Unix nanoseconds.  The epoch is an `int64` in the source; it is counted here as there as
long as it is below `2^63 - 1` (`ClusterState.BelowMaximum`).
-/

namespace OlricStack.Watchdog

/-! ## Lifecycle -/

/-- The numbers of type `int32` that the enumeration does not declare. -/
abbrev UndeclaredState := { n : ℤ // -2147483648 ≤ n ∧ n < 0 ∨ 7 < n ∧ n < 2147483648 }

/-- `topologypb.NodeState`; the enumeration is open on the wire. -/
inductive NodeState
  | unspecified
  | joining
  | ready
  | suspect
  | unreachable
  | draining
  | leaving
  | removed
  | undeclared (value : UndeclaredState)
deriving DecidableEq, Repr

/-- The events of the state machine. -/
inductive NodeEvent
  | heartbeat
  | suspect
  | expire
  | terminal
  | drain
  | leave
  | remove
deriving DecidableEq, Repr

/-- `newNodeLifecycleFSM`: where an event leads, in the states it is declared for. -/
def NodeState.next : NodeState → NodeEvent → Option NodeState
  | .joining, .heartbeat | .ready, .heartbeat | .suspect, .heartbeat | .unreachable, .heartbeat =>
    some .ready
  | .draining, .heartbeat => some .draining
  | .leaving, .heartbeat => some .leaving
  | .removed, .heartbeat => some .removed
  | .joining, .suspect | .ready, .suspect => some .suspect
  | .joining, .expire | .ready, .expire | .suspect, .expire | .draining, .expire
  | .leaving, .expire => some .unreachable
  | .joining, .terminal | .ready, .terminal | .suspect, .terminal | .unreachable, .terminal
  | .draining, .terminal | .leaving, .terminal => some .removed
  | .joining, .drain | .ready, .drain | .suspect, .drain => some .draining
  | .ready, .leave | .suspect, .leave | .draining, .leave => some .leaving
  | .unreachable, .remove | .leaving, .remove | .removed, .remove => some .removed
  | _, _ => none

/-- An unspecified state is read as ready. -/
def NodeState.orReady : NodeState → NodeState
  | .unspecified => .ready
  | state => state

/-- `watchdog.NodeState`, whose lifecycle is always in the state it records. -/
structure Node where
  nodeID : Bytes
  podName : Bytes
  podIP : Bytes
  incarnation : ℤ
  state : NodeState
  protocolVersion : Bytes
  lastHeartbeat : ℤ
  podReady : Bool
  podPhase : String
deriving DecidableEq, Repr

namespace Node

/-- `transition`: the node after the event, and whether its state has changed.  An event that does
not belong to the state, or leads back to it, is an error of the state machine. -/
def transition (n : Node) (event : NodeEvent) : Node × Bool :=
  match n.state.next event with
  | none => (n, false)
  | some state => ({ n with state := state }, state ≠ n.state)

/-- `applyHeartbeatState`: which event a reported state is. -/
def applyHeartbeatState (n : Node) (state : NodeState) : Node × Bool :=
  match state.orReady with
  | .draining => n.transition .drain
  | .leaving => n.transition .leave
  | .removed => n.transition .remove
  | _ => n.transition .heartbeat

end Node

/-! ## Observations -/

/-- What a heartbeat shows of a node. -/
structure HeartbeatObservation where
  nodeID : Bytes
  podName : Bytes
  podIP : Bytes
  incarnation : ℤ
  reportedState : NodeState
  protocolVersion : Bytes
  seenAt : ℤ
deriving DecidableEq, Repr

/-- What a heartbeat has done. -/
inductive HeartbeatResult
  | unchanged
  | changed
  | stale
deriving DecidableEq, Repr

/-- What the controller has seen of a pod. -/
structure PodObservation where
  podName : Bytes
  podIP : Bytes
  ready : Bool
  phase : String
deriving DecidableEq, Repr

/-- `topologypb.Member`. -/
structure Member where
  nodeID : Bytes
  podName : Bytes
  podIP : Bytes
  incarnation : ℤ
  state : NodeState
  lastSeenUnixMs : ℤ
deriving DecidableEq, Repr

/-- `ClusterState`: the nodes by their IDs, and the epoch. -/
structure ClusterState where
  nodes : KeyedSet Node.nodeID
  epoch : ℤ

namespace Node

/-- The node of a first heartbeat. -/
def ofHeartbeat (obs : HeartbeatObservation) : Node where
  nodeID := obs.nodeID
  podName := obs.podName
  podIP := obs.podIP
  incarnation := obs.incarnation
  state := obs.reportedState.orReady
  protocolVersion := obs.protocolVersion
  lastHeartbeat := obs.seenAt
  podReady := false
  podPhase := ""

/-- A heartbeat that is not stale, for a node that is known. -/
def heartbeat (n : Node) (obs : HeartbeatObservation) : Node × Bool :=
  let changed := obs.incarnation > n.incarnation || n.podName ≠ obs.podName ||
    n.podIP ≠ obs.podIP || n.protocolVersion ≠ obs.protocolVersion
  let updated := { n with
    podName := obs.podName
    podIP := obs.podIP
    incarnation := obs.incarnation
    protocolVersion := obs.protocolVersion
    lastHeartbeat := obs.seenAt }
  if obs.incarnation > n.incarnation then
    -- the new process starts its lifecycle afresh
    ({ updated with state := obs.reportedState.orReady },
      changed || obs.reportedState.orReady ≠ n.state)
  else
    let moved := updated.applyHeartbeatState obs.reportedState
    (moved.1, changed || moved.2)

/-- The observation of the node's pod: the last one with its name or, for a node without one, with
its address. -/
def observation (n : Node) (observations : List PodObservation) : Option PodObservation :=
  let named := observations.reverse.find? fun obs => obs.podName ≠ [] ∧ obs.podName = n.podName
  if n.podName = [] ∧ n.podIP ≠ [] then
    named.or (observations.reverse.find? fun obs => obs.podIP ≠ [] ∧ obs.podIP = n.podIP)
  else named

/-- One turn of the loop of `ApplyPodObservations`. -/
def observe (n : Node) (observations : List PodObservation) (expireAfter now : ℤ) :
    Option Node × Bool :=
  match n.observation observations with
  | none => if now - n.lastHeartbeat > expireAfter then (none, true) else (some n, false)
  | some obs =>
    let moved :=
      if obs.phase = "Failed" ∨ obs.phase = "Succeeded" then n.transition .terminal else (n, false)
    (some { moved.1 with podName := obs.podName, podReady := obs.ready, podPhase := obs.phase },
      moved.2 || n.podReady ≠ obs.ready || n.podPhase ≠ obs.phase || n.podName ≠ obs.podName)

/-- One turn of the loop of `PruneExpired`. -/
def prune (n : Node) (suspectAfter expireAfter now : ℤ) : Option Node × Bool :=
  let sinceHeartbeat := now - n.lastHeartbeat
  if sinceHeartbeat > expireAfter then
    let expired := n.transition .expire
    let removed := expired.1.transition .remove
    (if removed.1.state = .removed then none else some removed.1, expired.2 || removed.2)
  else if sinceHeartbeat > suspectAfter then
    let suspected := n.transition .suspect
    (some suspected.1, suspected.2)
  else (some n, false)

/-- Whether `Members` lists the node. -/
def listed (n : Node) (expireAfter now : ℤ) : Bool :=
  !(now - n.lastHeartbeat > expireAfter) && n.state ≠ .removed && n.state ≠ .unreachable

/-- What the members are told of a node. -/
def member (n : Node) : Member where
  nodeID := n.nodeID
  podName := n.podName
  podIP := n.podIP
  incarnation := n.incarnation
  state := n.state
  lastSeenUnixMs := n.lastHeartbeat / 1000000

/-! The identity of a node does not change. -/

theorem transition_identity (n : Node) (event : NodeEvent) :
    (n.transition event).1.nodeID = n.nodeID ∧
      (n.transition event).1.incarnation = n.incarnation := by
  unfold transition
  split <;> exact ⟨rfl, rfl⟩

theorem transition_lastHeartbeat (n : Node) (event : NodeEvent) :
    (n.transition event).1.lastHeartbeat = n.lastHeartbeat := by
  unfold transition
  split <;> rfl

theorem applyHeartbeatState_identity (n : Node) (state : NodeState) :
    (n.applyHeartbeatState state).1.nodeID = n.nodeID ∧
      (n.applyHeartbeatState state).1.incarnation = n.incarnation := by
  unfold applyHeartbeatState
  split <;> exact transition_identity _ _

theorem heartbeat_identity (n : Node) (obs : HeartbeatObservation) :
    (n.heartbeat obs).1.nodeID = n.nodeID ∧
      (n.heartbeat obs).1.incarnation = obs.incarnation := by
  unfold heartbeat
  dsimp only
  split
  · exact ⟨rfl, rfl⟩
  · exact applyHeartbeatState_identity _ _

theorem observe_identity {n n' : Node} {observations : List PodObservation} {expireAfter now : ℤ}
    (h : (n.observe observations expireAfter now).1 = some n') :
    n'.nodeID = n.nodeID ∧ n'.incarnation = n.incarnation := by
  unfold observe at h
  split at h
  · split_ifs at h
    cases h
    exact ⟨rfl, rfl⟩
  · dsimp only at h
    split_ifs at h
    · cases h
      exact transition_identity n .terminal
    · cases h
      exact ⟨rfl, rfl⟩

theorem prune_identity {n n' : Node} {suspectAfter expireAfter now : ℤ}
    (h : (n.prune suspectAfter expireAfter now).1 = some n') :
    n'.nodeID = n.nodeID ∧ n'.incarnation = n.incarnation := by
  unfold prune at h
  dsimp only at h
  split_ifs at h
  · cases h
    obtain ⟨id, inc⟩ := transition_identity (n.transition .expire).1 .remove
    obtain ⟨id', inc'⟩ := transition_identity n .expire
    exact ⟨id.trans id', inc.trans inc'⟩
  · cases h
    exact transition_identity n .suspect
  · cases h
    exact ⟨rfl, rfl⟩

theorem prune_lastHeartbeat {n n' : Node} {suspectAfter expireAfter now : ℤ}
    (h : (n.prune suspectAfter expireAfter now).1 = some n') :
    n'.lastHeartbeat = n.lastHeartbeat := by
  unfold prune at h
  dsimp only at h
  split_ifs at h
  · cases h
    rw [transition_lastHeartbeat, transition_lastHeartbeat]
  · cases h
    exact transition_lastHeartbeat n .suspect
  · cases h
    rfl

end Node

/-! ## The cluster -/

namespace ClusterState

/-- A stack without nodes. -/
def new : ClusterState := ⟨.empty, 0⟩

/-- The epoch after a step that has changed something or not. -/
def bump (s : ClusterState) (nodes : KeyedSet Node.nodeID) (changed : Bool) : ClusterState :=
  ⟨nodes, if changed then s.epoch + 1 else s.epoch⟩

/-- `ApplyHeartbeat`: a node is taken in, updated, or found to be an older incarnation. -/
def applyHeartbeat (s : ClusterState) (obs : HeartbeatObservation) :
    ClusterState × HeartbeatResult :=
  match s.nodes.lookup obs.nodeID with
  | none => (s.bump (s.nodes.insert (.ofHeartbeat obs)) true, .changed)
  | some node =>
    if obs.incarnation < node.incarnation then (s, .stale)
    else
      let updated := node.heartbeat obs
      (s.bump (s.nodes.insert updated.1) updated.2, if updated.2 then .changed else .unchanged)

/-- `ApplyPodObservations`, with the pods of the stack. -/
def applyPodObservations (s : ClusterState) (observations : List PodObservation)
    (expireAfter now : ℤ) : ClusterState × Bool :=
  let changed := s.nodes.toList.any fun n => (n.observe observations expireAfter now).2
  (s.bump (s.nodes.filterMap (fun n => (n.observe observations expireAfter now).1)
    fun _ _ h => (Node.observe_identity h).1) changed, changed)

/-- `PruneExpired`. -/
def pruneExpired (s : ClusterState) (suspectAfter expireAfter now : ℤ) : ClusterState × Bool :=
  let changed := s.nodes.toList.any fun n => (n.prune suspectAfter expireAfter now).2
  (s.bump (s.nodes.filterMap (fun n => (n.prune suspectAfter expireAfter now).1)
    fun _ _ h => (Node.prune_identity h).1) changed, changed)

/-- `Members`: the nodes that are not past their time, in the order of their IDs. -/
def members (s : ClusterState) (expireAfter now : ℤ) : List Member :=
  ((s.nodes.toList.filter fun n => n.listed expireAfter now).map Node.member).insertionSort
    fun a b => a.nodeID ≤ b.nodeID

/-- `BumpEpochAtLeast`. -/
def bumpEpochAtLeast (s : ClusterState) (epoch : ℤ) : ClusterState :=
  if epoch > s.epoch then { s with epoch := epoch } else s

/-- The epoch can be counted up. -/
def BelowMaximum (s : ClusterState) : Prop := s.epoch < 9223372036854775807

/-- The `int64` that the source counts up is the epoch here. -/
theorem epoch_bump_int64 {s : ClusterState} (range : -9223372036854775808 ≤ s.epoch)
    (below : s.BelowMaximum) (nodes : KeyedSet Node.nodeID) (changed : Bool) :
    (s.bump nodes changed).epoch =
      (s.epoch + if changed then 1 else 0).bmod 18446744073709551616 := by
  unfold BelowMaximum at below
  cases changed
  · change s.epoch = (s.epoch + 0).bmod _
    rw [Int.add_zero, Int.bmod_eq_of_le (by omega) (by omega)]
  · change s.epoch + 1 = (s.epoch + 1).bmod _
    rw [Int.bmod_eq_of_le (by omega) (by omega)]

theorem lookup_pruneExpired (s : ClusterState) (suspectAfter expireAfter now : ℤ) (id : Bytes) :
    (s.pruneExpired suspectAfter expireAfter now).1.nodes.lookup id =
      (s.nodes.lookup id).bind fun n => (n.prune suspectAfter expireAfter now).1 :=
  s.nodes.lookup_filterMap (fun _ _ h => (Node.prune_identity h).1) id

theorem lookup_applyPodObservations (s : ClusterState) (observations : List PodObservation)
    (expireAfter now : ℤ) (id : Bytes) :
    (s.applyPodObservations observations expireAfter now).1.nodes.lookup id =
      (s.nodes.lookup id).bind fun n => (n.observe observations expireAfter now).1 :=
  s.nodes.lookup_filterMap (fun _ _ h => (Node.observe_identity h).1) id

/-! Nodes come into a cluster by their own heartbeats only. -/

theorem applyHeartbeat_stale_iff (s : ClusterState) (obs : HeartbeatObservation) :
    (s.applyHeartbeat obs).2 = .stale ↔
      ∃ node ∈ s.nodes.lookup obs.nodeID, obs.incarnation < node.incarnation := by
  unfold applyHeartbeat
  cases s.nodes.lookup obs.nodeID with
  | none => simp
  | some node =>
    dsimp only
    split_ifs with older changed <;> simp [older]

/-- A heartbeat is stale and changes nothing; or it counts up the epoch; or the node is known under
its incarnation.  The node is then recorded under the incarnation, and the others as before. -/
theorem applyHeartbeat_spec (s : ClusterState) (obs : HeartbeatObservation) :
    ((s.applyHeartbeat obs).2 = .stale ∧ (s.applyHeartbeat obs).1 = s) ∨
      ((s.applyHeartbeat obs).2 = .changed ∧ (s.applyHeartbeat obs).1.epoch = s.epoch + 1 ∨
        (s.applyHeartbeat obs).2 = .unchanged ∧ (s.applyHeartbeat obs).1.epoch = s.epoch ∧
          ∃ node, s.nodes.lookup obs.nodeID = some node ∧ node.incarnation = obs.incarnation) ∧
      (∃ node, (s.applyHeartbeat obs).1.nodes.lookup obs.nodeID = some node ∧
        node.incarnation = obs.incarnation) ∧
      ∀ id, id ≠ obs.nodeID →
        (s.applyHeartbeat obs).1.nodes.lookup id = s.nodes.lookup id := by
  unfold applyHeartbeat
  cases hnode : s.nodes.lookup obs.nodeID with
  | none =>
    refine .inr ⟨.inl ⟨rfl, rfl⟩, ⟨.ofHeartbeat obs, ?_, rfl⟩, fun id other => ?_⟩
    · exact s.nodes.lookup_insert_self (.ofHeartbeat obs)
    · exact s.nodes.lookup_insert_of_ne other
  | some node =>
    dsimp only
    obtain ⟨same, incarnation⟩ := node.heartbeat_identity obs
    have known := s.nodes.key_of_lookup hnode
    split_ifs with older changed
    · exact .inl ⟨rfl, rfl⟩
    · refine .inr ⟨.inl ⟨rfl, by rw [bump, if_pos changed]⟩, ⟨_, ?_, incarnation⟩,
        fun id other => ?_⟩
      · rw [← known, ← same]
        exact s.nodes.lookup_insert_self _
      · exact s.nodes.lookup_insert_of_ne (by rwa [same, known])
    · refine .inr ⟨.inr ⟨rfl, by rw [bump, if_neg changed], node, rfl, ?_⟩, ⟨_, ?_, incarnation⟩,
        fun id other => ?_⟩
      · -- a higher incarnation would have been a change
        by_contra ne
        refine changed ?_
        have higher : obs.incarnation > node.incarnation := by omega
        simp [Node.heartbeat, higher]
      · rw [← known, ← same]
        exact s.nodes.lookup_insert_self _
      · exact s.nodes.lookup_insert_of_ne (by rwa [same, known])

theorem lookup_applyHeartbeat_of_ne (s : ClusterState) {obs : HeartbeatObservation} {id : Bytes}
    (other : id ≠ obs.nodeID) : (s.applyHeartbeat obs).1.nodes.lookup id = s.nodes.lookup id := by
  rcases s.applyHeartbeat_spec obs with ⟨-, same⟩ | ⟨-, -, others⟩
  · rw [same]
  · exact others id other

/-- What time and pod observations do: the epoch is counted up with a change, and no node is new. -/
structure Reviewed (s s' : ClusterState) (changed : Bool) : Prop where
  epoch : s'.epoch = if changed then s.epoch + 1 else s.epoch
  known : ∀ id node', s'.nodes.lookup id = some node' →
    ∃ node, s.nodes.lookup id = some node ∧ node'.incarnation = node.incarnation

theorem Reviewed.refl (s : ClusterState) : Reviewed s s false :=
  ⟨rfl, fun _ node known => ⟨node, known, rfl⟩⟩

theorem Reviewed.empty {s s' : ClusterState} {changed : Bool} (h : Reviewed s s' changed)
    (empty : s.nodes.toList = []) : s'.nodes.toList = [] := by
  rw [List.eq_nil_iff_forall_not_mem]
  intro node' member
  obtain ⟨node, known, -⟩ := h.known _ _ (s'.nodes.lookup_of_mem member)
  have mem := (s.nodes.lookup_eq_some_iff.1 known).1
  rw [empty] at mem
  cases mem

theorem reviewed_filterMap (s : ClusterState) {f : Node → Option Node} (changed : Bool)
    (keeps : ∀ n n', f n = some n' → n'.nodeID = n.nodeID ∧ n'.incarnation = n.incarnation) :
    Reviewed s (s.bump (s.nodes.filterMap f fun n n' h => (keeps n n' h).1) changed) changed := by
  refine ⟨rfl, fun id node' h => ?_⟩
  rw [bump, KeyedSet.lookup_filterMap] at h
  obtain ⟨node, known, kept⟩ := Option.bind_eq_some_iff.1 h
  exact ⟨node, known, (keeps node node' kept).2⟩

theorem reviewed_applyPodObservations (s : ClusterState) (observations : List PodObservation)
    (expireAfter now : ℤ) :
    Reviewed s (s.applyPodObservations observations expireAfter now).1
      (s.applyPodObservations observations expireAfter now).2 :=
  reviewed_filterMap s _ fun _ _ => Node.observe_identity

theorem reviewed_pruneExpired (s : ClusterState) (suspectAfter expireAfter now : ℤ) :
    Reviewed s (s.pruneExpired suspectAfter expireAfter now).1
      (s.pruneExpired suspectAfter expireAfter now).2 :=
  reviewed_filterMap s _ fun _ _ => Node.prune_identity

theorem epoch_bumpEpochAtLeast (s : ClusterState) (epoch : ℤ) :
    (s.bumpEpochAtLeast epoch).epoch = max s.epoch epoch := by
  unfold bumpEpochAtLeast
  split_ifs with higher
  · exact (max_eq_right higher.le).symm
  · exact (max_eq_left (not_lt.1 higher)).symm

theorem nodes_bumpEpochAtLeast (s : ClusterState) (epoch : ℤ) :
    (s.bumpEpochAtLeast epoch).nodes = s.nodes := by
  unfold bumpEpochAtLeast
  split_ifs <;> rfl

end ClusterState

/-! ## The roster

What the members of a cluster tell, apart from the times.  It changes with the epoch only. -/

/-- A member without the time it was last seen. -/
structure Shown where
  nodeID : Bytes
  podName : Bytes
  podIP : Bytes
  incarnation : ℤ
  state : NodeState
deriving DecidableEq, Repr

/-- A member without the time it was last seen. -/
def Member.shown (m : Member) : Shown := ⟨m.nodeID, m.podName, m.podIP, m.incarnation, m.state⟩

namespace Node

/-- Whether `Members` lists the node while its heartbeats are recent. -/
def shows (n : Node) : Bool := n.state ≠ .removed && n.state ≠ .unreachable

/-- What the node contributes to the roster. -/
def shown (n : Node) : Option Shown := if n.shows then some n.member.shown else none

theorem transition_unchanged {n : Node} {event : NodeEvent} (h : (n.transition event).2 = false) :
    (n.transition event).1 = n := by
  unfold transition at h ⊢
  split
  · rfl
  · next leads =>
    rw [leads] at h
    have same := not_not.1 (of_decide_eq_false h)
    rw [same]

theorem applyHeartbeatState_unchanged {n : Node} {state : NodeState}
    (h : (n.applyHeartbeatState state).2 = false) : (n.applyHeartbeatState state).1 = n := by
  unfold applyHeartbeatState at h ⊢
  split at h <;> exact transition_unchanged h

/-- A heartbeat that changes nothing is remembered by its time only. -/
theorem heartbeat_unchanged {n : Node} {obs : HeartbeatObservation}
    (current : ¬obs.incarnation < n.incarnation) (h : (n.heartbeat obs).2 = false) :
    (n.heartbeat obs).1 = { n with lastHeartbeat := obs.seenAt } := by
  unfold heartbeat at h ⊢
  dsimp only at h ⊢
  split_ifs at h ⊢ with higher
  · simp [higher] at h
  · simp only [Bool.or_eq_false_iff, decide_eq_false_iff_not, not_not] at h
    obtain ⟨⟨⟨⟨-, name⟩, ip⟩, version⟩, state⟩ := h
    rw [applyHeartbeatState_unchanged state, name, ip, version,
      show obs.incarnation = n.incarnation by omega]

theorem observe_unchanged {n : Node} {observations : List PodObservation} {expireAfter now : ℤ}
    (h : (n.observe observations expireAfter now).2 = false) :
    (n.observe observations expireAfter now).1 = some n := by
  unfold observe at h ⊢
  split
  · next absent =>
    rw [absent] at h
    dsimp only at h
    split_ifs at h ⊢
    rfl
  · next obs found =>
    rw [found] at h
    simp only [Bool.or_eq_false_iff, decide_eq_false_iff_not, not_not] at h
    obtain ⟨⟨⟨moved, ready⟩, phase⟩, name⟩ := h
    split_ifs at moved ⊢ with terminal
    · dsimp only
      rw [transition_unchanged moved, ← ready, ← phase, ← name]
    · dsimp only
      rw [← ready, ← phase, ← name]

theorem prune_unchanged {n : Node} {suspectAfter expireAfter now : ℤ}
    (h : (n.prune suspectAfter expireAfter now).2 = false) :
    ((n.prune suspectAfter expireAfter now).1).bind shown = n.shown := by
  unfold prune at h ⊢
  dsimp only at h ⊢
  split_ifs at h ⊢ with expired removed suspect
  · -- a node that was removed already is forgotten without a change
    obtain ⟨first, second⟩ := Bool.or_eq_false_iff.1 h
    rw [transition_unchanged second, transition_unchanged first] at removed
    simp [shown, shows, removed]
  · obtain ⟨first, second⟩ := Bool.or_eq_false_iff.1 h
    rw [transition_unchanged second, transition_unchanged first]
    rfl
  · rw [transition_unchanged h]
    rfl
  · rfl

end Node

namespace ClusterState

/-- All that the members could show, whatever the time. -/
def roster (s : ClusterState) : List Shown :=
  ((s.nodes.toList.filter Node.shows).map fun n => n.member.shown).insertionSort
    fun a b => a.nodeID ≤ b.nodeID

/-- The heartbeats of all nodes that could be listed are recent. -/
def Fresh (s : ClusterState) (expireAfter now : ℤ) : Prop :=
  ∀ n ∈ s.nodes.toList, n.shows = true → now - n.lastHeartbeat ≤ expireAfter

theorem members_shown {s : ClusterState} {expireAfter now : ℤ} (fresh : s.Fresh expireAfter now) :
    (s.members expireAfter now).map Member.shown = s.roster := by
  have same : (s.nodes.toList.filter fun n => n.listed expireAfter now) =
      s.nodes.toList.filter Node.shows := by
    refine List.filter_congr fun n hn => ?_
    have recent := fresh n hn
    rw [Node.listed, Bool.and_assoc, ← Node.shows]
    by_cases h : now - n.lastHeartbeat > expireAfter
    · have hidden : n.shows = false :=
        Bool.eq_false_iff.2 fun shows => absurd (recent shows) (not_le.2 h)
      rw [hidden, Bool.and_false]
    · simp [h]
  have sorted := List.map_insertionSort (fun a b : Member => a.nodeID ≤ b.nodeID)
    (fun a b : Shown => a.nodeID ≤ b.nodeID) Member.shown
    ((s.nodes.toList.filter Node.shows).map Node.member) fun _ _ _ _ => Iff.rfl
  rw [members, same, sorted, List.map_map]
  rfl

theorem mem_roster {s : ClusterState} {x : Shown} :
    x ∈ s.roster ↔ (s.nodes.lookup x.nodeID).bind Node.shown = some x := by
  rw [roster, (List.perm_insertionSort _ _).mem_iff, List.mem_map, Option.bind_eq_some_iff]
  constructor
  · rintro ⟨n, hn, rfl⟩
    obtain ⟨hn, shows⟩ := List.mem_filter.1 hn
    exact ⟨n, s.nodes.lookup_of_mem hn, if_pos shows⟩
  · rintro ⟨n, found, shown⟩
    unfold Node.shown at shown
    split_ifs at shown with shows
    exact ⟨n, List.mem_filter.2 ⟨(s.nodes.lookup_eq_some_iff.1 found).1, shows⟩,
      Option.some.inj shown⟩

theorem nodup_roster (s : ClusterState) : (s.roster.map Shown.nodeID).Nodup := by
  refine ((List.perm_insertionSort _ _).map Shown.nodeID).nodup_iff.2 ?_
  rw [List.map_map]
  exact s.nodes.nodup.sublist (List.filter_sublist.map Node.nodeID)

/-- The roster is determined by what every node contributes. -/
theorem roster_congr {s s' : ClusterState} (h : ∀ id, (s.nodes.lookup id).bind Node.shown =
    (s'.nodes.lookup id).bind Node.shown) : s.roster = s'.roster := by
  have total : Std.Total fun a b : Shown => a.nodeID ≤ b.nodeID :=
    ⟨fun a b => le_total a.nodeID b.nodeID⟩
  have trans : IsTrans Shown fun a b => a.nodeID ≤ b.nodeID := ⟨fun _ _ _ => le_trans⟩
  have mem : ∀ x, x ∈ s.roster ↔ x ∈ s'.roster := fun x => by rw [mem_roster, mem_roster, h]
  have antisymm : ∀ a b, a ∈ s.roster → b ∈ s'.roster → a.nodeID ≤ b.nodeID →
      b.nodeID ≤ a.nodeID → a = b := fun a b ha hb le ge =>
    List.inj_on_of_nodup_map s'.nodup_roster ((mem a).1 ha) hb (le_antisymm le ge)
  have perm := (List.perm_ext_iff_of_nodup s.nodup_roster.of_map s'.nodup_roster.of_map).2 mem
  exact perm.eq_of_pairwise antisymm (List.pairwise_insertionSort _ _)
    (List.pairwise_insertionSort _ _)

/-- What a cluster may become without a heartbeat: no node is new, the epoch does not fall, and
while it stays the roster does. -/
structure Follows (s s' : ClusterState) : Prop where
  epoch : s.epoch ≤ s'.epoch
  known : ∀ id node', s'.nodes.lookup id = some node' →
    ∃ node, s.nodes.lookup id = some node ∧ node'.incarnation = node.incarnation
  roster : s'.epoch = s.epoch → s'.roster = s.roster

theorem Follows.refl (s : ClusterState) : s.Follows s :=
  ⟨le_rfl, fun _ node known => ⟨node, known, rfl⟩, fun _ => rfl⟩

theorem follows_bumpEpochAtLeast (s : ClusterState) (epoch : ℤ) :
    s.Follows (s.bumpEpochAtLeast epoch) := by
  refine ⟨?_, fun id node' h => ?_, fun _ => ?_⟩
  · rw [epoch_bumpEpochAtLeast]
    exact le_max_left _ _
  · rw [nodes_bumpEpochAtLeast] at h
    exact ⟨node', h, rfl⟩
  · rw [roster, nodes_bumpEpochAtLeast, roster]

/-- Time and pod observations. -/
theorem Reviewed.follows {s s' : ClusterState} {changed : Bool} (h : Reviewed s s' changed)
    (roster : changed = false → s'.roster = s.roster) : s.Follows s' := by
  refine ⟨?_, h.known, fun same => roster ?_⟩
  · rw [h.epoch]
    split_ifs <;> omega
  · rw [h.epoch] at same
    split_ifs at same with is
    · omega
    · exact Bool.eq_false_iff.2 is

theorem roster_filterMap {s : ClusterState} {f : Node → Option Node} {changed : Bool}
    (keeps : ∀ n n', f n = some n' → n'.nodeID = n.nodeID)
    (same : ∀ n ∈ s.nodes.toList, (f n).bind Node.shown = n.shown) :
    (s.bump (s.nodes.filterMap f keeps) changed).roster = s.roster := by
  refine roster_congr fun id => ?_
  rw [bump, KeyedSet.lookup_filterMap, Option.bind_assoc]
  cases found : s.nodes.lookup id with
  | none => rfl
  | some n => exact same n (s.nodes.lookup_eq_some_iff.1 found).1

theorem follows_pruneExpired (s : ClusterState) (suspectAfter expireAfter now : ℤ) :
    s.Follows (s.pruneExpired suspectAfter expireAfter now).1 := by
  refine (s.reviewed_pruneExpired suspectAfter expireAfter now).follows fun unchanged => ?_
  refine roster_filterMap _ fun n hn => Node.prune_unchanged ?_
  exact Bool.eq_false_iff.2 fun changed =>
    absurd (List.any_eq_true.2 ⟨n, hn, changed⟩) (Bool.eq_false_iff.1 unchanged)

theorem follows_applyPodObservations (s : ClusterState) (observations : List PodObservation)
    (expireAfter now : ℤ) :
    s.Follows (s.applyPodObservations observations expireAfter now).1 := by
  refine (s.reviewed_applyPodObservations observations expireAfter now).follows fun unchanged => ?_
  refine roster_filterMap _ fun n hn => ?_
  rw [Node.observe_unchanged]
  · rfl
  · exact Bool.eq_false_iff.2 fun changed =>
      absurd (List.any_eq_true.2 ⟨n, hn, changed⟩) (Bool.eq_false_iff.1 unchanged)

/-- A heartbeat is counted by the epoch, or it is stale and changes nothing, or it changes only when
its node was last seen. -/
theorem applyHeartbeat_cases (s : ClusterState) (obs : HeartbeatObservation) :
    (s.applyHeartbeat obs).1.epoch = s.epoch + 1 ∨
      (s.applyHeartbeat obs).1 = s ∨
      (s.applyHeartbeat obs).1.epoch = s.epoch ∧
        ∃ node, s.nodes.lookup obs.nodeID = some node ∧ (s.applyHeartbeat obs).1.nodes =
          s.nodes.insert { node with lastHeartbeat := obs.seenAt } := by
  unfold applyHeartbeat
  cases found : s.nodes.lookup obs.nodeID with
  | none => exact .inl rfl
  | some node =>
    dsimp only
    split_ifs with older changed
    · exact .inr (.inl rfl)
    · exact .inl (if_pos changed)
    · refine .inr (.inr ⟨if_neg changed, node, rfl, ?_⟩)
      rw [Node.heartbeat_unchanged older (Bool.eq_false_iff.2 changed), bump]

/-- What is read off a node and does not depend on when it was last seen is not changed. -/
theorem lookup_insert_seen {s : ClusterState} {node : Node} {id : Bytes} {β : Type*}
    (found : s.nodes.lookup id = some node) (seen : ℤ) (f : Node → Option β)
    (same : f { node with lastHeartbeat := seen } = f node) (id' : Bytes) :
    ((s.nodes.insert { node with lastHeartbeat := seen }).lookup id').bind f =
      (s.nodes.lookup id').bind f := by
  obtain rfl : node.nodeID = id := s.nodes.key_of_lookup found
  by_cases this : id' = node.nodeID
  · rw [this, found, s.nodes.lookup_insert_self { node with lastHeartbeat := seen }]
    exact same
  · rw [s.nodes.lookup_insert_of_ne (a := { node with lastHeartbeat := seen }) this]

/-- A heartbeat does not lower the epoch, and changes the roster with the epoch only. -/
theorem roster_applyHeartbeat (s : ClusterState) (obs : HeartbeatObservation) :
    s.epoch ≤ (s.applyHeartbeat obs).1.epoch ∧
      ((s.applyHeartbeat obs).1.epoch = s.epoch → (s.applyHeartbeat obs).1.roster = s.roster) := by
  rcases s.applyHeartbeat_cases obs with up | unmoved | ⟨same, node, found, nodes⟩
  · exact ⟨by omega, fun same => by omega⟩
  · rw [unmoved]
    exact ⟨le_rfl, fun _ => rfl⟩
  · refine ⟨same.ge, fun _ => roster_congr fun id => ?_⟩
    rw [nodes]
    exact lookup_insert_seen found obs.seenAt Node.shown rfl id

end ClusterState

end OlricStack.Watchdog
