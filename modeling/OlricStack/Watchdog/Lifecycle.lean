import OlricStack.Lib.Run
import OlricStack.Watchdog.Cluster

/-!
# Lifecycles over whole runs

What the calls on a `ClusterState` do to the record of one node is said once (`ClusterOp.record`,
`lookup_apply`), and the results are read off that.  A change of what `Members` tells is counted by
the epoch (`visible_change_counts`), a node does not go back in its life while its record stands for
one process (`lifecycle_never_goes_back`), and pruning forgets every overdue node that has a
declared state (`pruning_complete_iff`).  A state from the wire that is not declared has no events,
and a node recorded with it stays for ever (`undeclared_state_stays`).
-/

namespace OlricStack.Watchdog

open Transition

/-! ## Calls -/

/-- The calls that move a cluster. -/
inductive ClusterOp
  | applyHeartbeat (obs : HeartbeatObservation)
  | applyPodObservations (observations : List PodObservation) (expireAfter now : ℤ)
  | pruneExpired (suspectAfter expireAfter now : ℤ)
  | bumpEpochAtLeast (epoch : ℤ)
deriving DecidableEq, Repr

namespace ClusterState

/-- What an operation leaves. -/
def apply (s : ClusterState) : ClusterOp → ClusterState
  | .applyHeartbeat obs => (s.applyHeartbeat obs).1
  | .applyPodObservations observations expireAfter now =>
    (s.applyPodObservations observations expireAfter now).1
  | .pruneExpired suspectAfter expireAfter now =>
    (s.pruneExpired suspectAfter expireAfter now).1
  | .bumpEpochAtLeast epoch => s.bumpEpochAtLeast epoch

/-- One operation, as a step. -/
def step (s : ClusterState) (op : ClusterOp) : Option ClusterState := some (s.apply op)

end ClusterState

/-- What a call makes of the record of the node `id`, if there is one. -/
def ClusterOp.record (id : Bytes) : ClusterOp → Option Node → Option Node
  | .applyHeartbeat obs, none => if obs.nodeID = id then some (.ofHeartbeat obs) else none
  | .applyHeartbeat obs, some n =>
    if obs.nodeID = id ∧ ¬obs.incarnation < n.incarnation then some (n.heartbeat obs).1 else some n
  | .applyPodObservations observations expireAfter now, r =>
    r.bind fun n => (n.observe observations expireAfter now).1
  | .pruneExpired suspectAfter expireAfter now, r =>
    r.bind fun n => (n.prune suspectAfter expireAfter now).1
  | .bumpEpochAtLeast _, r => r

namespace ClusterState

theorem lookup_applyHeartbeat (s : ClusterState) (obs : HeartbeatObservation) (id : Bytes) :
    (s.applyHeartbeat obs).1.nodes.lookup id =
      (ClusterOp.applyHeartbeat obs).record id (s.nodes.lookup id) := by
  by_cases this : obs.nodeID = id
  · subst this
    unfold applyHeartbeat
    cases found : s.nodes.lookup obs.nodeID with
    | none =>
      simp only [ClusterOp.record, if_true]
      exact s.nodes.lookup_insert_self (.ofHeartbeat obs)
    | some n =>
      simp only [ClusterOp.record, true_and]
      by_cases older : obs.incarnation < n.incarnation
      · rw [if_pos older, if_neg (not_not.2 older)]
        exact found
      · have key := (n.heartbeat_identity obs).1.trans (s.nodes.key_of_lookup found)
        rw [if_neg older, if_pos older, ← key]
        exact s.nodes.lookup_insert_self _
  · rw [s.lookup_applyHeartbeat_of_ne (Ne.symm this)]
    cases s.nodes.lookup id <;> simp [ClusterOp.record, this]

theorem lookup_apply (s : ClusterState) (op : ClusterOp) (id : Bytes) :
    (s.apply op).nodes.lookup id = op.record id (s.nodes.lookup id) := by
  cases op with
  | applyHeartbeat obs => exact s.lookup_applyHeartbeat obs id
  | applyPodObservations => exact s.lookup_applyPodObservations _ _ _ id
  | pruneExpired => exact s.lookup_pruneExpired _ _ _ id
  | bumpEpochAtLeast epoch => rw [apply, nodes_bumpEpochAtLeast, ClusterOp.record]

end ClusterState

/-! ## Recorded states -/

namespace NodeState

/-- The number on the wire has a name. -/
def Declared : NodeState → Prop
  | .undeclared _ => False
  | _ => True

instance : DecidablePred Declared
  | .undeclared _ => .isFalse not_false
  | .unspecified | .joining | .ready | .suspect | .unreachable | .draining | .leaving | .removed =>
    .isTrue trivial

/-- A state without events. -/
def Lasting (state : NodeState) : Prop := ¬state.Declared ∨ state = .unspecified

instance : DecidablePred Lasting := fun _ => instDecidableOr

theorem orReady_ne_unspecified (state : NodeState) : state.orReady ≠ .unspecified := by
  cases state <;> simp [orReady]

theorem not_lasting_orReady {state : NodeState} (h : state.Declared) : ¬state.orReady.Lasting := by
  cases state <;> simp_all [orReady, Lasting, Declared]

/-- Events lead to states that have events. -/
theorem not_lasting_next {state next : NodeState} {event : NodeEvent}
    (h : state.next event = some next) : ¬next.Lasting := by
  cases state <;> cases event <;>
    simp only [NodeState.next, Option.some.injEq, reduceCtorEq] at h <;> subst h <;> decide

end NodeState

/-- What one call can make of a recorded state, apart from a new process: an overdue node that is
kept has no events, so that nothing is left of its expiry. -/
def NodeState.Leads (state state' : NodeState) : Prop :=
  state' = state ∨ ∃ event, event ≠ .expire ∧ state.next event = some state'

namespace Node

variable {n n' : Node}

theorem leads_transition (n : Node) (event : NodeEvent) (kept : event ≠ .expire) :
    n.state.Leads (n.transition event).1.state := by
  unfold transition
  split
  · exact .inl rfl
  · next found => exact .inr ⟨event, kept, found⟩

theorem leads_applyHeartbeatState (n : Node) (state : NodeState) :
    n.state.Leads (n.applyHeartbeatState state).1.state := by
  unfold applyHeartbeatState
  split <;> exact leads_transition _ _ (by simp)

theorem state_heartbeat (n : Node) (obs : HeartbeatObservation) :
    n.incarnation < obs.incarnation ∧ (n.heartbeat obs).1.state = obs.reportedState.orReady ∨
      n.state.Leads (n.heartbeat obs).1.state := by
  unfold heartbeat
  dsimp only
  split_ifs with higher
  · exact .inl ⟨higher, rfl⟩
  · exact .inr (leads_applyHeartbeatState _ _)

theorem leads_observe {observations : List PodObservation} {expireAfter now : ℤ}
    (kept : (n.observe observations expireAfter now).1 = some n') : n.state.Leads n'.state := by
  unfold observe at kept
  split at kept
  · split_ifs at kept
    cases kept
    exact .inl rfl
  · dsimp only at kept
    split_ifs at kept
    · cases kept
      exact n.leads_transition .terminal (by simp)
    · cases kept
      exact .inl rfl

/-- Expiry and removal lead to the end from every state that has events. -/
theorem state_expired (n : Node) :
    ((n.transition .expire).1.transition .remove).1.state =
      if n.state.Lasting then n.state else .removed := by
  unfold transition
  cases state : n.state <;>
    simp [NodeState.next, NodeState.Lasting, NodeState.Declared, state]

/-- Pruning forgets an overdue node unless its state has no events. -/
theorem prune_eq_none_iff {suspectAfter expireAfter now : ℤ}
    (late : now - n.lastHeartbeat > expireAfter) :
    (n.prune suspectAfter expireAfter now).1 = none ↔ ¬n.state.Lasting := by
  simp only [prune, if_pos late, n.state_expired]
  by_cases lasting : n.state.Lasting
  · have other : n.state ≠ .removed := by
      rintro state
      rw [state] at lasting
      exact absurd lasting (by decide)
    simp [lasting, other]
  · simp [lasting]

theorem leads_prune {suspectAfter expireAfter now : ℤ}
    (kept : (n.prune suspectAfter expireAfter now).1 = some n') : n.state.Leads n'.state := by
  unfold prune at kept
  dsimp only at kept
  split_ifs at kept with _ removed
  · cases kept
    rw [n.state_expired] at removed ⊢
    split_ifs at removed ⊢ with lasting
    · exact .inl rfl
    · exact absurd rfl removed
  · cases kept
    exact n.leads_transition .suspect (by simp)
  · cases kept
    exact .inl rfl

end Node

/-- What a call makes of a record it keeps. -/
theorem ClusterOp.record_some {op : ClusterOp} {id : Bytes} {n n' : Node}
    (h : op.record id (some n) = some n') :
    n'.incarnation = n.incarnation ∧ n.state.Leads n'.state ∨
      ∃ obs, op = .applyHeartbeat obs ∧ n.incarnation < n'.incarnation ∧
        n'.state = obs.reportedState.orReady := by
  cases op with
  | applyHeartbeat obs =>
    simp only [record] at h
    split_ifs at h with own
    · cases h
      have incarnation := (n.heartbeat_identity obs).2
      by_cases higher : n.incarnation < obs.incarnation
      · exact .inr ⟨obs, rfl, by rwa [incarnation], by simp [Node.heartbeat, higher]⟩
      · refine .inl ⟨by omega, (n.state_heartbeat obs).resolve_left fun new => higher new.1⟩
    · cases h
      exact .inl ⟨rfl, .inl rfl⟩
  | applyPodObservations => exact .inl ⟨(Node.observe_identity h).2, Node.leads_observe h⟩
  | pruneExpired => exact .inl ⟨(Node.prune_identity h).2, Node.leads_prune h⟩
  | bumpEpochAtLeast =>
    cases h
    exact .inl ⟨rfl, .inl rfl⟩

/-- Only a heartbeat makes a record. -/
theorem ClusterOp.record_none {op : ClusterOp} {id : Bytes} {n' : Node}
    (h : op.record id none = some n') :
    ∃ obs, op = .applyHeartbeat obs ∧ n' = .ofHeartbeat obs := by
  cases op with
  | applyHeartbeat obs =>
    simp only [record] at h
    split_ifs at h
    cases h
    exact ⟨obs, rfl, rfl⟩
  | _ => cases h

/-- States come from heartbeats and from events. -/
theorem ClusterState.run_states {Q : NodeState → Prop} {ok : ClusterState → ClusterOp → Prop}
    (events : ∀ state event next, NodeState.next state event = some next → Q next)
    (reported : ∀ t obs, ok t (.applyHeartbeat obs) → Q obs.reportedState.orReady)
    {ops : List ClusterOp} {s : ClusterState} (r : Run step ok new ops s) :
    ∀ id n, s.nodes.lookup id = some n → Q n.state := by
  refine r.invariant (fun s => ∀ id n, s.nodes.lookup id = some n → Q n.state) ?_ ?_
  · intro id n found
    cases found
  · rintro t op u ih allowed ⟨⟩ id n' found
    rw [lookup_apply] at found
    cases recorded : t.nodes.lookup id with
    | none =>
      rw [recorded] at found
      obtain ⟨obs, rfl, rfl⟩ := ClusterOp.record_none found
      exact reported t obs allowed
    | some n =>
      rw [recorded] at found
      rcases ClusterOp.record_some found with ⟨-, same | ⟨event, -, next⟩⟩ | ⟨obs, rfl, -, state⟩
      · rw [same]
        exact ih id n recorded
      · exact events _ _ _ next
      · rw [state]
        exact reported t obs allowed

/-! ## The order of a life -/

/-- How far a node has come.  A state that is not declared does not count. -/
def NodeState.rank : NodeState → ℕ
  | .draining => 1
  | .leaving => 2
  | .removed => 3
  | .unspecified | .joining | .ready | .suspect | .unreachable | .undeclared _ => 0

theorem NodeState.Leads.rank_le {state state' : NodeState} (h : state.Leads state') :
    state.rank ≤ state'.rank := by
  rcases h with rfl | ⟨event, kept, next⟩
  · exact le_rfl
  · cases state <;> cases event <;>
      simp only [NodeState.next, Option.some.injEq, reduceCtorEq, ne_eq, not_true] at next kept <;>
      subst next <;> decide

theorem NodeState.removed_of_rank {state : NodeState} (h : 3 ≤ state.rank) : state = .removed := by
  cases state <;> simp [rank] at h ⊢

/-- The record of the node `id` is not deleted. -/
def Stays (id : Bytes) (s : ClusterState) (op : ClusterOp) : Prop :=
  ((s.apply op).nodes.lookup id).isSome = true

instance (id : Bytes) (s : ClusterState) (op : ClusterOp) : Decidable (Stays id s op) :=
  instDecidableEqBool _ _

/-- While the record of a node stays, its incarnation does not fall, and while that is the same its
state does not go back. -/
theorem ClusterState.rank_run {id : Bytes} {s t : ClusterState} {n : Node} {ops : List ClusterOp}
    (found : s.nodes.lookup id = some n) (r : Run step (Stays id) s ops t) :
    ∃ n', t.nodes.lookup id = some n' ∧ n.incarnation ≤ n'.incarnation ∧
      (n'.incarnation = n.incarnation → n.state.rank ≤ n'.state.rank) := by
  refine r.invariant (fun t => ∃ n', t.nodes.lookup id = some n' ∧ n.incarnation ≤ n'.incarnation ∧
    (n'.incarnation = n.incarnation → n.state.rank ≤ n'.state.rank)) ?_ ?_
  · exact ⟨n, found, le_rfl, fun _ => le_rfl⟩
  · rintro t op u ⟨m, recorded, older, before⟩ stays ⟨⟩
    obtain ⟨n', found'⟩ := Option.isSome_iff_exists.1 stays
    refine ⟨n', found', ?_⟩
    rw [lookup_apply, recorded] at found'
    rcases ClusterOp.record_some found' with ⟨same, leads⟩ | ⟨obs, rfl, higher, -⟩
    · rw [same]
      exact ⟨older, fun now => (before now).trans leads.rank_le⟩
    · exact ⟨by omega, fun now => by omega⟩

theorem ClusterState.mem_members {s : ClusterState} {expireAfter now : ℤ} {m : Member} :
    m ∈ s.members expireAfter now ↔
      ∃ n, s.nodes.lookup m.nodeID = some n ∧ n.listed expireAfter now = true ∧ n.member = m := by
  rw [members, (List.perm_insertionSort _ _).mem_iff, List.mem_map]
  constructor
  · rintro ⟨n, hn, rfl⟩
    obtain ⟨hn, listed⟩ := List.mem_filter.1 hn
    exact ⟨n, s.nodes.lookup_of_mem hn, listed, rfl⟩
  · rintro ⟨n, found, listed, rfl⟩
    exact ⟨n, List.mem_filter.2 ⟨(s.nodes.lookup_eq_some_iff.1 found).1, listed⟩, rfl⟩

/-- A node does not go back in its life: until its record is deleted or stands for a later process,
its rank does not fall.  So it does not become ready or suspect again once it drains or leaves, and
is not a member again once it is removed. -/
theorem lifecycle_never_goes_back {id : Bytes} {s t : ClusterState} {n : Node}
    {ops : List ClusterOp} (found : s.nodes.lookup id = some n)
    (r : Run ClusterState.step (Stays id) s ops t) :
    ∃ n', t.nodes.lookup id = some n' ∧ n.incarnation ≤ n'.incarnation ∧
      (n'.incarnation = n.incarnation →
        n.state.rank ≤ n'.state.rank ∧
        (n.state = .draining ∨ n.state = .leaving → n'.state ≠ .ready ∧ n'.state ≠ .suspect) ∧
        (n.state = .removed → ∀ expireAfter now, ∀ m ∈ t.members expireAfter now,
          m.nodeID ≠ id)) := by
  obtain ⟨n', found', older, ranked⟩ := ClusterState.rank_run found r
  refine ⟨n', found', older, fun same => ⟨ranked same, fun going => ?_, fun gone => ?_⟩⟩
  · have far : 1 ≤ n'.state.rank := by
      refine le_trans ?_ (ranked same)
      rcases going with state | state <;> rw [state] <;> decide
    constructor <;> intro back <;> rw [back] at far <;> exact absurd far (by decide)
  · rintro expireAfter now m member rfl
    obtain ⟨n'', listed⟩ := ClusterState.mem_members.1 member
    obtain rfl := Option.some.inj (found'.symm.trans listed.1)
    have removed := NodeState.removed_of_rank (gone ▸ ranked same)
    simp [Node.listed, removed] at listed

/-- A heartbeat of one node at a time in seconds. -/
def reportOf (state : NodeState) (seconds : ℤ) : HeartbeatObservation :=
  ⟨[1], [1], [1], 1, state, [], seconds * 1000000000⟩

/-- A node that drains is seen again, falls silent, and its pod ends. -/
theorem lifecycle_never_goes_back_draining :
    ∃ s n t, s.nodes.lookup [1] = some n ∧ n.state = .draining ∧
      Run ClusterState.step (Stays [1]) s
        [.applyHeartbeat (reportOf .ready 1),
          .pruneExpired 20000000000 30000000000 25000000000,
          .applyPodObservations [⟨[1], [1], false, "Failed"⟩] 30000000000 26000000000] t ∧
      ∃ n', t.nodes.lookup [1] = some n' ∧ n'.state = .removed ∧
        n.state.rank ≤ n'.state.rank := by
  obtain ⟨t, run, found, incarnation, state⟩ := Run.exists_of_exec ClusterState.step (Stays [1])
    (ClusterState.new.apply (.applyHeartbeat (reportOf .draining 0)))
    [.applyHeartbeat (reportOf .ready 1), .pruneExpired 20000000000 30000000000 25000000000,
      .applyPodObservations [⟨[1], [1], false, "Failed"⟩] 30000000000 26000000000]
    (fun t => (t.nodes.lookup [1]).isSome = true ∧
      (t.nodes.lookup [1]).all (fun n' => n'.incarnation = 1) = true ∧
      (t.nodes.lookup [1]).all (fun n' => n'.state = .removed) = true) (by decide +kernel)
  obtain ⟨n', found', -, ranked⟩ :=
    lifecycle_never_goes_back (n := .ofHeartbeat (reportOf .draining 0)) rfl run
  rw [found'] at incarnation state
  exact ⟨_, _, t, rfl, rfl, run, n', found', of_decide_eq_true state,
    (ranked (of_decide_eq_true incarnation)).1⟩

/-! ## Visible changes -/

/-- What a node contributes to the members at a time, apart from when it was last seen. -/
def Node.visible (expireAfter now : ℤ) (n : Node) : Option Shown :=
  if n.listed expireAfter now then some n.member.shown else none

namespace Node

variable {n n' : Node} {expireAfter now : ℤ}

theorem visible_of_late (late : now - n.lastHeartbeat > expireAfter) :
    n.visible expireAfter now = none := by
  simp [visible, listed, late]

theorem visible_of_inTime (inTime : ¬now - n.lastHeartbeat > expireAfter) :
    n.visible expireAfter now = n.shown := by
  simp [visible, shown, listed, shows, inTime]

end Node

namespace ClusterState

/-- The members at a time, without the times they were last seen. -/
def visible (s : ClusterState) (expireAfter now : ℤ) : List Shown :=
  (s.members expireAfter now).map Member.shown

/-- The nodes that have been heard of recently. -/
def recent (s : ClusterState) (expireAfter now : ℤ) : ClusterState :=
  { s with nodes := s.nodes.filter fun n => !(now - n.lastHeartbeat > expireAfter) }

variable {s s' : ClusterState} {expireAfter now : ℤ}

theorem visible_eq_roster : s.visible expireAfter now = (s.recent expireAfter now).roster := by
  have fresh : (s.recent expireAfter now).Fresh expireAfter now := by
    intro n member _
    simpa using (List.mem_filter.1 member).2
  rw [← members_shown fresh, visible, members, members, recent, KeyedSet.filter, List.filter_filter]
  congr 4
  funext n
  simp [Node.listed, Bool.and_comm]

/-- The members are determined by what every node contributes. -/
theorem visible_congr (h : ∀ id, (s.nodes.lookup id).bind (Node.visible expireAfter now) =
    (s'.nodes.lookup id).bind (Node.visible expireAfter now)) :
    s.visible expireAfter now = s'.visible expireAfter now := by
  have contributes (c : ClusterState) (id : Bytes) :
      ((c.recent expireAfter now).nodes.lookup id).bind Node.shown =
        (c.nodes.lookup id).bind (Node.visible expireAfter now) := by
    rw [recent, KeyedSet.lookup_filter]
    cases c.nodes.lookup id with
    | none => rfl
    | some n =>
      by_cases late : now - n.lastHeartbeat > expireAfter
      · simp [Option.filter, late, Node.visible_of_late late]
      · simp [Option.filter, late, Node.visible_of_inTime late]
  rw [visible_eq_roster, visible_eq_roster]
  exact roster_congr fun id => by rw [contributes, contributes, h]

theorem Reviewed.le {changed : Bool} (h : Reviewed s s' changed) : s.epoch ≤ s'.epoch := by
  rw [h.epoch]
  split_ifs <;> omega

theorem Reviewed.lt {changed : Bool} (h : Reviewed s s' changed) (is : changed = true) :
    s.epoch < s'.epoch := by
  rw [h.epoch, if_pos is]
  omega

theorem visible_filterMap {f : Node → Option Node} {changed : Bool}
    (keeps : ∀ n n', f n = some n' → n'.nodeID = n.nodeID)
    (same : ∀ n ∈ s.nodes.toList,
      (f n).bind (Node.visible expireAfter now) = n.visible expireAfter now) :
    (s.bump (s.nodes.filterMap f keeps) changed).visible expireAfter now =
      s.visible expireAfter now := by
  refine visible_congr fun id => ?_
  rw [bump, KeyedSet.lookup_filterMap, Option.bind_assoc]
  cases found : s.nodes.lookup id with
  | none => rfl
  | some n => exact same n (s.nodes.lookup_eq_some_iff.1 found).1

theorem unchanged_of_any {f : Node → Bool} (h : s.nodes.toList.any f = false) {n : Node}
    (member : n ∈ s.nodes.toList) : f n = false :=
  Bool.eq_false_iff.2 fun changed => List.any_eq_false.1 h n member changed

theorem visible_pruneExpired {suspectAfter : ℤ}
    (h : (s.pruneExpired suspectAfter expireAfter now).2 = false) :
    (s.pruneExpired suspectAfter expireAfter now).1.visible expireAfter now =
      s.visible expireAfter now := by
  refine visible_filterMap _ fun n member => ?_
  have unchanged := Node.prune_unchanged (unchanged_of_any h member)
  by_cases late : now - n.lastHeartbeat > expireAfter
  · -- an overdue node is not listed, with or without its record
    rw [Node.visible_of_late late, Option.bind_eq_none_iff]
    intro n' kept
    exact Node.visible_of_late (by rwa [Node.prune_lastHeartbeat kept])
  · rw [Node.visible_of_inTime late, ← unchanged]
    cases kept : (n.prune suspectAfter expireAfter now).1 with
    | none => rfl
    | some n' => exact Node.visible_of_inTime (by rwa [Node.prune_lastHeartbeat kept])

theorem visible_applyPodObservations {observations : List PodObservation}
    (h : (s.applyPodObservations observations expireAfter now).2 = false) :
    (s.applyPodObservations observations expireAfter now).1.visible expireAfter now =
      s.visible expireAfter now := by
  refine visible_filterMap _ fun n member => ?_
  rw [Node.observe_unchanged (unchanged_of_any h member)]
  rfl

theorem visible_applyHeartbeat {obs : HeartbeatObservation} (seen : obs.seenAt = now)
    (inTime : ∀ n, s.nodes.lookup obs.nodeID = some n →
      now - n.lastHeartbeat ≤ expireAfter ∧ 0 ≤ expireAfter)
    (same : (s.applyHeartbeat obs).1.epoch = s.epoch) :
    (s.applyHeartbeat obs).1.visible expireAfter now = s.visible expireAfter now := by
  rcases s.applyHeartbeat_cases obs with up | unmoved | ⟨-, node, found, nodes⟩
  · omega
  · rw [unmoved]
  · refine visible_congr fun id => ?_
    rw [nodes]
    obtain ⟨before, positive⟩ := inTime node found
    refine lookup_insert_seen found obs.seenAt _ ?_ id
    rw [Node.visible_of_inTime (not_lt.2 before), Node.visible_of_inTime]
    · rfl
    · rw [seen, Int.sub_self]
      exact not_lt.2 positive

/-- The steps at one time.  A heartbeat is applied right after the expired nodes are pruned, as
`registerHeartbeat` does. -/
inductive StepAt (expireAfter now : ℤ) (s : ClusterState) : ClusterState → Prop
  | pruneExpired (suspectAfter : ℤ) :
    StepAt expireAfter now s (s.pruneExpired suspectAfter expireAfter now).1
  | applyPodObservations (observations : List PodObservation) :
    StepAt expireAfter now s (s.applyPodObservations observations expireAfter now).1
  | registerHeartbeat (suspectAfter : ℤ) (obs : HeartbeatObservation) (seen : obs.seenAt = now) :
    StepAt expireAfter now s ((s.pruneExpired suspectAfter expireAfter now).1.applyHeartbeat obs).1

end ClusterState

/-- A heartbeat reports a declared state. -/
def Declares (_ : ClusterState) : ClusterOp → Prop
  | .applyHeartbeat obs => obs.reportedState.Declared
  | _ => True

instance (s : ClusterState) : (op : ClusterOp) → Decidable (Declares s op)
  | .applyHeartbeat obs => inferInstanceAs (Decidable obs.reportedState.Declared)
  | .applyPodObservations .. | .pruneExpired .. | .bumpEpochAtLeast _ => .isTrue trivial

namespace ClusterState

/-- Pruning keeps no overdue node that has events. -/
theorem inTime_pruneExpired {s : ClusterState} {suspectAfter expireAfter now : ℤ}
    (moving : ∀ id n, s.nodes.lookup id = some n → ¬n.state.Lasting) {id : Bytes} {n' : Node}
    (found : (s.pruneExpired suspectAfter expireAfter now).1.nodes.lookup id = some n') :
    ∃ n, s.nodes.lookup id = some n ∧ n'.lastHeartbeat = n.lastHeartbeat ∧
      now - n.lastHeartbeat ≤ expireAfter := by
  have kept := s.lookup_apply (.pruneExpired suspectAfter expireAfter now) id
  rw [apply, found] at kept
  obtain ⟨n, recorded, pruned⟩ := Option.bind_eq_some_iff.1 kept.symm
  refine ⟨n, recorded, Node.prune_lastHeartbeat pruned, not_lt.1 fun late => ?_⟩
  rw [(Node.prune_eq_none_iff late).2 (moving id n recorded)] at pruned
  cases pruned

/-- A change of the members, the times they were last seen apart, is counted by the epoch, and the
epoch does not fall.  The duration is not negative, as the configuration has it, or else the clock
is not behind the heartbeats. -/
theorem visible_change_counts {ops : List ClusterOp} {s s' : ClusterState} {expireAfter now : ℤ}
    (r : Run step Declares new ops s)
    (clock : 0 ≤ expireAfter ∨ ∀ n ∈ s.nodes.toList, n.lastHeartbeat ≤ now)
    (h : s.StepAt expireAfter now s') :
    s.epoch ≤ s'.epoch ∧
      (s'.visible expireAfter now ≠ s.visible expireAfter now → s.epoch < s'.epoch) := by
  have pruned suspectAfter := s.reviewed_pruneExpired suspectAfter expireAfter now
  cases h with
  | pruneExpired suspectAfter =>
    refine ⟨(pruned suspectAfter).le, fun differs => (pruned suspectAfter).lt ?_⟩
    by_contra unchanged
    exact differs (visible_pruneExpired (Bool.eq_false_iff.2 unchanged))
  | applyPodObservations observations =>
    have observed := s.reviewed_applyPodObservations observations expireAfter now
    refine ⟨observed.le, fun differs => observed.lt ?_⟩
    by_contra unchanged
    exact differs (visible_applyPodObservations (Bool.eq_false_iff.2 unchanged))
  | registerHeartbeat suspectAfter obs seen =>
    have moving := run_states (fun _ _ _ => NodeState.not_lasting_next)
      (fun _ _ reported => NodeState.not_lasting_orReady reported) r
    have first := (pruned suspectAfter).le
    have second := ((s.pruneExpired suspectAfter expireAfter now).1.roster_applyHeartbeat obs).1
    refine ⟨first.trans second, fun differs => lt_of_le_of_ne (first.trans second) fun same => ?_⟩
    -- neither of the two has been counted, so neither shows
    have unchanged : (s.pruneExpired suspectAfter expireAfter now).2 = false :=
      Bool.eq_false_iff.2 fun changed => by
        have up := (pruned suspectAfter).lt changed
        omega
    refine differs ((visible_applyHeartbeat seen (fun n' found => ?_) (by omega)).trans
      (visible_pruneExpired unchanged))
    obtain ⟨n, recorded, kept, inTime⟩ := inTime_pruneExpired moving found
    rw [kept]
    refine ⟨inTime, clock.elim id fun behind => ?_⟩
    have before := behind n (s.nodes.lookup_eq_some_iff.1 recorded).1
    omega

/-- A member begins to drain. -/
theorem visible_change_counts_draining :
    ∃ s s', Run step Declares new [.applyHeartbeat (reportOf .ready 0)] s ∧
      s.StepAt 30000000000 1000000000 s' ∧
      s'.visible 30000000000 1000000000 ≠ s.visible 30000000000 1000000000 ∧
      s.epoch < s'.epoch := by
  obtain ⟨s, run, differs⟩ := Run.exists_of_exec step Declares new
    [.applyHeartbeat (reportOf .ready 0)]
    (fun s => ((s.pruneExpired 20000000000 30000000000 1000000000).1.applyHeartbeat
      (reportOf .draining 1)).1.visible 30000000000 1000000000 ≠
        s.visible 30000000000 1000000000) (by decide +kernel)
  have step : s.StepAt 30000000000 1000000000 _ :=
    .registerHeartbeat 20000000000 (reportOf .draining 1) rfl
  exact ⟨s, _, run, step, differs,
    (visible_change_counts run (.inl (by decide)) step).2 differs⟩

end ClusterState

/-! ## Pruning -/

/-- Pruning forgets the overdue nodes exactly when all of them have declared states, and it counts
the epoch up when it forgets a node that was in a state to be listed. -/
theorem pruning_complete_iff {ops : List ClusterOp} {s : ClusterState}
    (r : Run ClusterState.step anyAction .new ops s) (suspectAfter expireAfter now : ℤ) :
    ((∀ n ∈ (s.pruneExpired suspectAfter expireAfter now).1.nodes.toList,
        now - n.lastHeartbeat ≤ expireAfter) ↔
      ∀ n ∈ s.nodes.toList, now - n.lastHeartbeat > expireAfter → n.state.Declared) ∧
    ((∃ n ∈ s.nodes.toList, n.shows = true ∧
        (s.pruneExpired suspectAfter expireAfter now).1.nodes.lookup n.nodeID = none) →
      s.epoch < (s.pruneExpired suspectAfter expireAfter now).1.epoch) := by
  have specified : ∀ id n, s.nodes.lookup id = some n → n.state ≠ .unspecified :=
    ClusterState.run_states (fun _ _ _ next is => NodeState.not_lasting_next next (.inr is))
      (fun _ obs _ => obs.reportedState.orReady_ne_unspecified) r
  refine ⟨⟨fun complete n member late => ?_, fun declared n' member => ?_⟩, ?_⟩
  · -- what is kept of an overdue node is overdue
    by_contra undeclared
    cases kept : (n.prune suspectAfter expireAfter now).1 with
    | none => exact (Node.prune_eq_none_iff late).1 kept (.inl undeclared)
    | some n' =>
      have inTime := complete n' (List.mem_filterMap.2 ⟨n, member, kept⟩)
      rw [Node.prune_lastHeartbeat kept] at inTime
      exact not_lt.2 inTime late
  · obtain ⟨n, known, kept⟩ := List.mem_filterMap.1 member
    rw [Node.prune_lastHeartbeat kept]
    refine not_lt.1 fun late => ?_
    have moving : ¬n.state.Lasting := fun lasting =>
      lasting.elim (fun no => no (declared n known late))
        (specified n.nodeID n (s.nodes.lookup_of_mem known))
    rw [(Node.prune_eq_none_iff late).2 moving] at kept
    cases kept
  · rintro ⟨n, member, shows, gone⟩
    refine (s.reviewed_pruneExpired suspectAfter expireAfter now).lt ?_
    refine List.any_eq_true.2 ⟨n, member, ?_⟩
    by_contra unchanged
    have same := Node.prune_unchanged (Bool.eq_false_iff.2 unchanged)
    have record := s.lookup_apply (.pruneExpired suspectAfter expireAfter now) n.nodeID
    rw [ClusterState.apply, gone, s.nodes.lookup_of_mem member] at record
    rw [show (n.prune suspectAfter expireAfter now).1 = none from record.symm] at same
    simp [Node.shown, shows] at same

/-- A node drops out of sight and is pruned. -/
theorem pruning_complete_silent :
    ∃ s, Run ClusterState.step anyAction .new [.applyHeartbeat (reportOf .ready 0)] s ∧
      s.nodes.toList ≠ [] ∧
      (∀ n ∈ (s.pruneExpired 20000000000 30000000000 31000000000).1.nodes.toList,
        31000000000 - n.lastHeartbeat ≤ 30000000000) ∧
      s.epoch < (s.pruneExpired 20000000000 30000000000 31000000000).1.epoch := by
  obtain ⟨s, run, known, declared, gone⟩ := Run.exists_of_exec ClusterState.step anyAction .new
    [.applyHeartbeat (reportOf .ready 0)]
    (fun s => s.nodes.toList ≠ [] ∧ (∀ n ∈ s.nodes.toList, n.state.Declared) ∧
      ∃ n ∈ s.nodes.toList, n.shows = true ∧
        (s.pruneExpired 20000000000 30000000000 31000000000).1.nodes.lookup n.nodeID = none)
    (by decide +kernel)
  obtain ⟨complete, counted⟩ :=
    pruning_complete_iff run 20000000000 30000000000 31000000000
  exact ⟨s, run, known, complete.2 fun n member _ => declared n member, counted gone⟩

/-- A node that reports a state without a name is never forgotten. -/
theorem undeclared_state_stays :
    ∃ s, Run ClusterState.step anyAction .new
        [.applyHeartbeat (reportOf (.undeclared ⟨99, by decide⟩) 0)] s ∧
      ∃ n ∈ (s.pruneExpired 20000000000 30000000000 31000000000).1.nodes.toList,
        ¬31000000000 - n.lastHeartbeat ≤ 30000000000 :=
  Run.exists_of_exec _ _ _ _ _ (by decide +kernel)

end OlricStack.Watchdog
