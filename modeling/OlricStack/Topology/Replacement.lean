import OlricStack.Topology.Leadership

/-!
# Streams that have been replaced

A node that opens a new `Watch` stream replaces the subscriber of the old one, whose `done` channel
is closed.  The goroutine that receives the heartbeats of the old stream does not look at this
channel: a heartbeat that it has already received is registered for the old subscriber and closes
the new one (`late_heartbeat_displaces`).  What protects the new stream is the incarnation alone.
As long as heartbeats of streams that are dead, or older than another one of the node, are stale,
nothing of the kind can happen (`dead_stream_never_displaces`).
-/

namespace OlricStack.Topology

open Transition Watchdog

namespace Service

/-! ## Heartbeats that come too late -/

/-- The `done` channel of the subscriber is closed. -/
def closed (s : Service) (i : ℕ) : Bool := ((s.subs[i]?).map Subscriber.done).getD false

/-- A later incarnation of the node is on record. -/
def Outpaced (s : Service) (hb : Heartbeat) : Prop :=
  ∃ node ∈ (s.stack hb.stackID).cluster.nodes.lookup hb.nodeID, hb.incarnation < node.incarnation

instance (s : Service) (hb : Heartbeat) : Decidable (s.Outpaced hb) := by
  unfold Outpaced
  infer_instance

theorem stale_iff_outpaced (s : Service) (hb : Heartbeat) (now : ℤ) :
    ((s.stack hb.stackID).cluster.applyHeartbeat (observation hb now)).2 = .stale ↔
      s.Outpaced hb :=
  ClusterState.applyHeartbeat_stale_iff _ _

theorem applyHeartbeat_of_outpaced {s : Service} {hb : Heartbeat} (late : s.Outpaced hb) (i : ℕ)
    (now : ℤ) (event : Broadcast) : s.applyHeartbeat hb i now event = s := by
  unfold applyHeartbeat
  dsimp only
  rw [(s.stale_iff_outpaced hb now).2 late]

/-! ## What a part does to the subscribers -/

theorem unsent_ids : Unsent ids := ⟨fun _ _ => rfl, fun _ _ => rfl, ids_enqueue⟩

/-- Only `Watch` makes subscribers. -/
theorem ids_runPart (s : Service) (p : Part) : (s.runPart p).1.ids = s.ids := by
  cases p with
  | ifPrimary => rfl
  | load id load =>
    dsimp only [runPart, loadEpochLocked]
    split_ifs
    · rfl
    · rfl
    · split <;> rfl
  | prune id now io =>
    dsimp only [runPart, pruneExpiredLocked]
    split_ifs
    · exact unsent_ids.broadcastLocked _ _ _ _
    · rfl
  | heartbeat hb i now event =>
    dsimp only [runPart, applyHeartbeat]
    split
    · rfl
    · rw [unsent_ids.broadcastLocked, ids_subscribe]
    · split_ifs
      · rw [unsent_ids.sendLatestLocked, ids_subscribe]
      · rw [ids_subscribe]
  | observe id observations now io =>
    dsimp only [runPart, observe]
    split_ifs
    · exact unsent_ids.broadcastLocked _ _ _ _
    · rfl
  | broadcast id io => exact unsent_ids.broadcastLocked _ _ _ _
  | answer id io =>
    dsimp only [runPart, answer]
    split_ifs <;> exact unsent_ids.saveEpochLocked _ _ _ _
  | unregister i =>
    dsimp only [runPart]
    split
    · unfold unregister
      dsimp only
      split
      · split_ifs <;> rfl
      · rfl
    · rfl

/-- A stack is replaced by one with the same subscribers. -/
theorem subscribers_setStack (s : Service) {st : StackState}
    (same : st.subscribers = (s.stack st.stackID).subscribers) (id : Bytes) :
    ((s.setStack st).stack id).subscribers = (s.stack id).subscribers := by
  by_cases this : id = st.stackID
  · rw [this, stack_setStack_self, same]
  · rw [stack_setStack_of_ne s this]

theorem subscribers_load (s : Service) (k : Bytes) (load : Except String ℤ) (id : Bytes) :
    (((s.stateFor k).loadEpochLocked k load).1.stack id).subscribers =
      (s.stack id).subscribers := by
  have made (id : Bytes) : ((s.stateFor k).stack id).subscribers = (s.stack id).subscribers := by
    refine s.subscribers_setStack ?_ id
    rw [stackID_stack]
  have kept {st : StackState} (same : st.subscribers = ((s.stateFor k).stack k).subscribers)
      (this : st.stackID = ((s.stateFor k).stack k).stackID) :
      (((s.stateFor k).setStack st).stack id).subscribers = (s.stack id).subscribers := by
    refine (subscribers_setStack _ ?_ id).trans (made id)
    rw [this, stackID_stack, same]
  dsimp only [loadEpochLocked]
  split_ifs
  · exact made id
  · exact kept rfl rfl
  · split
    · exact made id
    · exact kept rfl rfl

/-- The subscriber of the node survives the pruning. -/
def PruneKeeps (s : Service) (id : Bytes) (now : ℤ) (node : Bytes) : Prop :=
  let pruned := (s.stack id).cluster.pruneExpired s.cfg.suspectAfter s.cfg.expireAfter now
  pruned.2 = true → ∃ m ∈ pruned.1.members s.cfg.expireAfter now, m.nodeID = node

theorem mem_subscribers_prune (s : Service) (k : Bytes) (now : ℤ) (io : Broadcast) (id : Bytes)
    (r : Registration) :
    r ∈ ((s.pruneExpiredLocked k now io).stack id).subscribers.toList ↔
      r ∈ (s.stack id).subscribers.toList ∧ (id = k → s.PruneKeeps k now r.nodeID) := by
  unfold pruneExpiredLocked PruneKeeps
  by_cases this : id = k
  · subst this
    dsimp only
    split_ifs with changed
    · rw [stack_broadcastLocked, stack_setStack_same]
      simp [KeyedSet.filter, changed]
    · rw [stack_setStack_same]
      simp [changed]
  · dsimp only
    split_ifs
    · rw [stack_broadcastLocked, stack_setStack_other _ this]
      simp [this]
    · rw [stack_setStack_other _ this]
      simp [this]

theorem stack_applyHeartbeat {s : Service} {hb : Heartbeat} (fresh : ¬ s.Outpaced hb) (i : ℕ)
    (now : ℤ) (event : Broadcast) (k : Bytes) :
    (s.applyHeartbeat hb i now event).stack k = (s.subscribe hb
      ((s.stack hb.stackID).cluster.applyHeartbeat (observation hb now)).1 i).stack k := by
  rw [← s.stale_iff_outpaced hb now] at fresh
  unfold applyHeartbeat
  dsimp only
  split
  · next stale => exact absurd stale fresh
  · exact stack_broadcastLocked _ _ _ _ _
  · split_ifs
    · exact (unsent_stack k).sendLatestLocked _ _ _ _ _
    · rfl

theorem mem_subscribers_applyHeartbeat {s : Service} {hb : Heartbeat} (fresh : ¬ s.Outpaced hb)
    (i : ℕ) (now : ℤ) (event : Broadcast) (id : Bytes) (r : Registration) :
    r ∈ ((s.applyHeartbeat hb i now event).stack id).subscribers.toList ↔
      r ∈ (s.stack id).subscribers.toList ∧ ¬ (id = hb.stackID ∧ r.nodeID = hb.nodeID) ∨
        id = hb.stackID ∧ r = ⟨hb.nodeID, i⟩ := by
  rw [stack_applyHeartbeat fresh]
  by_cases this : id = hb.stackID
  · rw [this, stack_subscribe, KeyedSet.mem_insert]
    simp
  · rw [stack_subscribe_of_ne s this]
    simp [this]

theorem subscribers_observe (s : Service) (k : Bytes) (observations : List PodObservation)
    (now : ℤ) (io : Broadcast) (id : Bytes) :
    ((s.observe k observations now io).stack id).subscribers = (s.stack id).subscribers := by
  have kept (cluster : ClusterState) : ((s.setStack { s.stack k with cluster := cluster }).stack
      id).subscribers = (s.stack id).subscribers := by
    refine s.subscribers_setStack ?_ id
    rw [stackID_stack]
  unfold observe
  dsimp only
  split_ifs
  · rw [stack_broadcastLocked]
    exact kept _
  · exact kept _

theorem stack_answer (s : Service) (k : Bytes) (io : Broadcast) (id : Bytes) :
    (s.answer k io).stack id = s.stack id := by
  unfold answer
  dsimp only
  split_ifs <;> exact stack_saveEpochLocked _ _ _ _ _

theorem mem_subscribers_unregister (s : Service) (i : ℕ) (sub : Subscriber) (id : Bytes)
    (r : Registration) :
    r ∈ ((s.unregister i sub).stack id).subscribers.toList ↔
      r ∈ (s.stack id).subscribers.toList ∧
        ¬ (id = sub.id.stackID ∧ r.nodeID = sub.id.nodeID ∧ r.sub = i) := by
  have made : ((s.stateFor sub.id.stackID).stack id).subscribers = (s.stack id).subscribers := by
    refine s.subscribers_setStack ?_ id
    rw [stackID_stack]
  -- a registration of the node is the one that the call finds
  have found (member : r ∈ (s.stack id).subscribers.toList) (this : id = sub.id.stackID)
      (node : r.nodeID = sub.id.nodeID) :
      (s.stack sub.id.stackID).subscribers.lookup sub.id.nodeID = some r := by
    rw [← this, ← node]
    exact KeyedSet.lookup_of_mem _ member
  unfold unregister
  dsimp only
  split
  · next current is =>
    split_ifs with own
    · by_cases this : id = sub.id.stackID
      · rw [this, stack_setStack_same, KeyedSet.mem_erase]
        refine and_congr_right fun member => ?_
        simp only [true_and, ne_eq, not_and]
        refine ⟨fun other node => absurd node other, fun other node => other node ?_⟩
        rw [← this] at member
        obtain rfl := Option.some.inj ((found member this node).symm.trans is)
        exact own
      · rw [stack_setStack_other _ this]
        simp [this]
    · rw [made]
      refine ⟨fun member => ⟨member, fun ⟨this, node, mine⟩ => ?_⟩, And.left⟩
      obtain rfl := Option.some.inj ((found member this node).symm.trans is)
      exact own mine
  · next missing =>
    rw [made]
    refine ⟨fun member => ⟨member, fun ⟨this, node, _⟩ => ?_⟩, And.left⟩
    rw [found member this node] at missing
    cases missing

/-- A registration is new only if a heartbeat of its subscriber has been applied. -/
theorem mem_subscribers_runPart {s : Service} {p : Part} {id : Bytes} {r : Registration}
    (h : r ∈ ((s.runPart p).1.stack id).subscribers.toList) :
    r ∈ (s.stack id).subscribers.toList ∨
      ∃ hb now event, p = .heartbeat hb r.sub now event ∧ ¬ s.Outpaced hb ∧ id = hb.stackID ∧
        r.nodeID = hb.nodeID := by
  cases p with
  | ifPrimary => exact .inl h
  | load k load =>
    dsimp only [runPart] at h
    rw [subscribers_load] at h
    exact .inl h
  | prune k now io => exact .inl ((s.mem_subscribers_prune k now io id r).1 h).1
  | heartbeat hb i now event =>
    dsimp only [runPart] at h
    by_cases late : s.Outpaced hb
    · rw [applyHeartbeat_of_outpaced late] at h
      exact .inl h
    · rcases (mem_subscribers_applyHeartbeat late i now event id r).1 h with old | ⟨this, rfl⟩
      · exact .inl old.1
      · exact .inr ⟨hb, now, event, rfl, late, this, rfl⟩
  | observe k observations now io =>
    dsimp only [runPart] at h
    rw [subscribers_observe] at h
    exact .inl h
  | broadcast k io =>
    dsimp only [runPart] at h
    rw [stack_broadcastLocked] at h
    exact .inl h
  | answer k io =>
    dsimp only [runPart] at h
    rw [stack_answer] at h
    exact .inl h
  | unregister i =>
    dsimp only [runPart] at h
    split at h
    · exact .inl ((s.mem_subscribers_unregister i _ id r).1 h).1
    · exact .inl h

/-- A registration ends when the `Watch` call returns, when a pruning leaves the node out, or when
another subscriber of the node takes its place. -/
theorem subscribers_runPart_kept {s : Service} {p : Part} {id : Bytes} {r : Registration}
    (h : r ∈ (s.stack id).subscribers.toList) :
    r ∈ ((s.runPart p).1.stack id).subscribers.toList ∨ p = .unregister r.sub ∨
      (∃ now io, p = .prune id now io ∧ ¬ s.PruneKeeps id now r.nodeID) ∨
      ∃ hb i now event, p = .heartbeat hb i now event ∧ ¬ s.Outpaced hb ∧ id = hb.stackID ∧
        r.nodeID = hb.nodeID ∧ i ≠ r.sub := by
  cases p with
  | ifPrimary => exact .inl h
  | load k load =>
    dsimp only [runPart]
    rw [subscribers_load]
    exact .inl h
  | prune k now io =>
    by_cases kept : id = k → s.PruneKeeps k now r.nodeID
    · exact .inl ((s.mem_subscribers_prune k now io id r).2 ⟨h, kept⟩)
    · obtain ⟨rfl, dropped⟩ := Classical.not_imp.1 kept
      exact .inr (.inr (.inl ⟨now, io, rfl, dropped⟩))
  | heartbeat hb i now event =>
    dsimp only [runPart]
    by_cases late : s.Outpaced hb
    · rw [applyHeartbeat_of_outpaced late]
      exact .inl h
    · by_cases this : id = hb.stackID ∧ r.nodeID = hb.nodeID
      · by_cases own : i = r.sub
        · refine .inl ((mem_subscribers_applyHeartbeat late i now event id r).2 (.inr ⟨this.1, ?_⟩))
          rw [own, ← this.2]
        · exact .inr (.inr (.inr ⟨hb, i, now, event, rfl, late, this.1, this.2, own⟩))
      · exact .inl ((mem_subscribers_applyHeartbeat late i now event id r).2 (.inl ⟨h, this⟩))
  | observe k observations now io =>
    dsimp only [runPart]
    rw [subscribers_observe]
    exact .inl h
  | broadcast k io =>
    dsimp only [runPart]
    rw [stack_broadcastLocked]
    exact .inl h
  | answer k io =>
    dsimp only [runPart]
    rw [stack_answer]
    exact .inl h
  | unregister i =>
    by_cases own : i = r.sub
    · exact .inr (.inl (by rw [own]))
    · dsimp only [runPart]
      split
      · next sub _ =>
        refine .inl ((s.mem_subscribers_unregister i sub id r).2 ⟨h, fun ended => own ?_⟩)
        exact ended.2.2.symm
      · exact .inl h

theorem mem_subscribers_post {s : Service} {p : Post} {id : Bytes} {r : Registration}
    (h : r ∈ ((s.post p).stack id).subscribers.toList) :
    r ∈ (s.stack id).subscribers.toList := by
  by_cases this : id = p.stackID
  · unfold post at h
    dsimp only at h
    rw [this, stack_setStack_same, stack_enqueue, KeyedSet.mem_erase] at h
    rw [this]
    exact h.1
  · rwa [stack_post_of_ne this] at h

/-- A registration is under the stack and the node of its stream. -/
def Named (s : Service) : Prop :=
  ∀ id, ∀ r ∈ (s.stack id).subscribers.toList,
    ∃ dst, s.ids[r.sub]? = some dst ∧ dst.stackID = id ∧ dst.nodeID = r.nodeID

theorem Named.congr {s s' : Service} (h : s.Named) (keeps : s.KeepsIDs s')
    (fewer : ∀ id, ∀ r ∈ (s'.stack id).subscribers.toList,
      r ∈ (s.stack id).subscribers.toList) : s'.Named := by
  intro id r member
  obtain ⟨dst, found, stack, node⟩ := h id r (fewer id r member)
  exact ⟨dst, keeps _ _ found, stack, node⟩

theorem Named.subscribe {s : Service} (h : s.Named) {hb : Heartbeat} {i : ℕ}
    (own : s.ids[i]? = some hb.stream) (cluster : ClusterState) :
    (s.subscribe hb cluster i).Named := by
  intro id r member
  rw [ids_subscribe]
  rcases mem_subscribers_subscribe member with old | ⟨rfl, rfl⟩
  · exact h id r old
  · exact ⟨hb.stream, own, rfl, rfl⟩

theorem Named.runPart {s : Service} (h : s.Named) {p : Part} (own : s.OwnPart p) :
    (s.runPart p).1.Named := by
  intro id r member
  rw [ids_runPart]
  rcases mem_subscribers_runPart member with old | ⟨hb, now, event, rfl, -, rfl, node⟩
  · exact h id r old
  · exact ⟨hb.stream, own, rfl, node.symm⟩

/-! ## Closed streams -/

theorem closed_set (s : Service) {i : ℕ} {sub : Subscriber} (found : s.subs[i]? = some sub)
    (moved : Subscriber) (j : ℕ) :
    ({ s with subs := s.subs.set i moved } : Service).closed j =
      if j = i then moved.done else s.closed j := by
  unfold closed
  dsimp only
  split_ifs with same
  · subst same
    rw [List.getElem?_set_self (List.getElem?_eq_some_iff.1 found).1]
    rfl
  · rw [List.getElem?_set_ne (Ne.symm same)]

/-- A subscriber moves on with its `done` channel as it was. -/
theorem closed_set_same (s : Service) {i : ℕ} {sub : Subscriber} (found : s.subs[i]? = some sub)
    (ch : List TopologyEnvelope) (j : ℕ) :
    ({ s with subs := s.subs.set i { sub with ch := ch } } : Service).closed j = s.closed j := by
  rw [closed_set s found]
  split_ifs with same
  · rw [same, closed, found]
    rfl
  · rfl

theorem closed_enqueue (s : Service) (i : ℕ) (env : TopologyEnvelope) (j : ℕ) :
    (s.enqueue i env).closed j = s.closed j := by
  unfold enqueue
  split
  · rfl
  · next sub found =>
    split_ifs
    · exact s.closed_set_same found _ j
    · rfl

theorem closed_closeSubscriber (s : Service) (i : ℕ) {j : ℕ} (h : s.closed j = true) :
    (s.closeSubscriber i).closed j = true := by
  unfold closeSubscriber
  split
  · exact h
  · next sub found =>
    rw [closed_set s found]
    split_ifs
    · rfl
    · exact h

theorem closed_connect (s : Service) (id : StreamID) {j : ℕ} (h : s.closed j = true) :
    (s.connect id).closed j = true := by
  have known : j < s.subs.length := by
    by_contra missing
    rw [closed, List.getElem?_eq_none (not_lt.1 missing)] at h
    cases h
  unfold closed connect at *
  rwa [List.getElem?_append_left known]

theorem closed_subscribe (s : Service) (hb : Heartbeat) (cluster : ClusterState) (i : ℕ) {j : ℕ}
    (h : s.closed j = true) : (s.subscribe hb cluster i).closed j = true := by
  unfold subscribe
  dsimp only
  split
  · split_ifs
    · exact s.closed_closeSubscriber _ h
    · exact h
  · exact h

theorem Act.closed {fresh : ClusterState → ℤ → Prop} {s s' : Service} (a : Act fresh s s') {j : ℕ}
    (h : s.closed j = true) : s'.closed j = true := by
  cases a with
  | error | review | loaded | saved | returned | standby => exact h
  | subscribe hb i now => exact s.closed_subscribe hb _ i h
  | send id r => rwa [closed_enqueue]
  | connect id => exact s.closed_connect id h

theorem Acts.closed {fresh : ClusterState → ℤ → Prop} {s s' : Service} (as : Acts fresh s s')
    {j : ℕ} (h : s.closed j = true) : s'.closed j = true := by
  induction as with
  | refl => exact h
  | tail _ a ih => exact a.closed ih

end Service

namespace LiveService

variable {s u : LiveService} {a : LiveAction}

theorem closed_take (s : LiveService) (i j : ℕ) :
    (s.take i).service.closed j = s.service.closed j := by
  unfold take
  split
  · rfl
  · next sub found => exact s.service.closed_set_same found _ j

/-- A closed channel stays closed. -/
theorem Turn.closed (t : Turn s a u) (kept : s.Kept) {j : ℕ} (h : s.service.closed j = true) :
    u.service.closed j = true := by
  cases t with
  | wait | lead | lock | demote | enter | unlock | refuse | answer | apply | hangUp => exact h
  | register hb => exact s.service.closed_connect hb.stream h
  | part p rest left held =>
    exact (Service.acts_runPart (kept.ownParts held p (.head rest))).closed h
  | drain p =>
    dsimp only
    rwa [closed_take]
  | post p =>
    change (s.service.enqueue _ _).closed j = true
    rwa [Service.closed_enqueue]
  | close i => exact s.service.closed_closeSubscriber i h
  | receive i =>
    dsimp only
    rwa [closed_take]

theorem service_of_lock {parts : List Part} (h : s.lock parts = some u) :
    u.service = s.service := by
  unfold lock at h
  split_ifs at h
  cases h
  rfl

/-- `next` is the only step that touches the stacks, and `register` the only one that makes a
subscriber. -/
theorem step_of_ne_next (h : s.step a = some u) (other : a ≠ .next) :
    (∀ id, u.service.stack id = s.service.stack id) ∧
      (u.service.ids = s.service.ids ∨
        ∃ k mine io id, a = .register k mine io ∧ u.service.ids = s.service.ids ++ [id]) := by
  have same (h : u.service = s.service) : (∀ id, u.service.stack id = s.service.stack id) ∧
      (u.service.ids = s.service.ids ∨
        ∃ k mine io id, a = .register k mine io ∧ u.service.ids = s.service.ids ++ [id]) := by
    rw [h]
    exact ⟨fun _ => rfl, .inl rfl⟩
  cases a with
  | next => exact absurd rfl other
  | setLeadership | reaperCheck | bookwormCheck | hangUp =>
    cases h
    exact ⟨fun _ => rfl, .inl rfl⟩
  | demote =>
    simp only [step] at h
    split_ifs at h
    cases h
    exact same rfl
  | enter =>
    simp only [step] at h
    split at h
    · split_ifs at h
      cases h
      exact same rfl
    · cases h
  | unlock | refuse =>
    simp only [step] at h
    split at h <;> cases h <;> exact ⟨fun _ => rfl, .inl rfl⟩
  | close k =>
    obtain ⟨i, -, h⟩ := Option.bind_eq_some_iff.1 h
    cases h
    exact ⟨s.service.stack_closeSubscriber i, .inl (s.service.ids_closeSubscriber i)⟩
  | watch | query =>
    simp only [step] at h
    split_ifs at h
    cases h
    exact same rfl
  | register k mine io =>
    simp only [step] at h
    split at h
    · next hb _ =>
      split_ifs at h
      rw [service_of_lock h]
      refine ⟨fun _ => rfl, .inr ⟨k, mine, io, hb.stream, rfl, ?_⟩⟩
      rw [Service.ids, Service.connect, List.map_append]
      rfl
    · cases h
  | getTopology =>
    simp only [step] at h
    split at h
    · exact same ((service_of_lock h).trans rfl)
    · cases h
  | receiveHeartbeat =>
    obtain ⟨sub, -, h⟩ := Option.bind_eq_some_iff.1 h
    split_ifs at h
    exact same (service_of_lock h)
  | observePods | unregister => exact same (service_of_lock h)
  | reaper | bookworm =>
    simp only [step] at h
    split_ifs at h
    exact same ((service_of_lock h).trans rfl)
  | receiveEnvelope i =>
    simp only [step] at h
    split at h
    · cases h
    · cases h
      obtain ⟨subs, taken, eq, ids, -⟩ := s.take_eq i
      rw [eq]
      exact ⟨fun _ => rfl, .inl ids⟩
  | apply =>
    simp only [step] at h
    split at h
    · cases h
    · cases h
      exact same rfl

/-- `next` does a part of a call, or something of a demotion. -/
theorem step_next (h : s.step .next = some u) :
    (∃ p rest, s.holder = some (.call (p :: rest)) ∧ u.service = (s.service.runPart p).1) ∨
      (∃ drained posts rest pending, s.holder = some (.demotion drained posts rest pending)) ∧
        u.service.ids = s.service.ids ∧
        ∀ id, ∀ r ∈ (u.service.stack id).subscribers.toList,
          r ∈ (s.service.stack id).subscribers.toList := by
  obtain ⟨holder, held, h⟩ := Option.bind_eq_some_iff.1 h
  unfold next at h
  split at h
  · cases h
  · next p rest =>
    cases h
    exact .inl ⟨p, rest, held, rfl⟩
  · cases h
  · next p posts rest pending =>
    cases h
    obtain ⟨subs, taken, eq, ids, -⟩ := s.take_eq p.registration.sub
    refine .inr ⟨⟨_, _, _, _, held⟩, ?_⟩
    rw [eq]
    exact ⟨ids, fun _ _ member => member⟩
  · next p posts rest pending =>
    cases h
    refine .inr ⟨⟨_, _, _, _, held⟩, s.service.ids_post p, fun id r member => ?_⟩
    exact Service.mem_subscribers_post member

end LiveService

/-! ## Streams of a node -/

/-- The service, with the `Watch` calls that have returned. -/
structure WatchService where
  live : LiveService
  returned : List ℕ

namespace WatchService

/-- A service with no calls of `Watch`. -/
def new (cfg : Config) (stackID : Bytes) : WatchService := ⟨.new cfg stackID, []⟩

/-- The `Watch` call that returns with the step: the last thing it does is to unregister its
subscriber. -/
def returns (s : LiveService) : LiveAction → Option ℕ
  | .next =>
    match s.holder with
    | some (.call (.unregister i :: _)) => some i
    | _ => none
  | _ => none

/-- One step of the service, with the call of `Watch` that returns by it. -/
def step (s : WatchService) (a : LiveAction) : Option WatchService := do
  let live ← s.live.step a
  return ⟨live, s.returned ++ (returns s.live a).toList⟩

/-- The stream has been closed, or its `Watch` call has returned. -/
def Dead (s : WatchService) (i : ℕ) : Prop := s.live.service.closed i = true ∨ i ∈ s.returned

/-- The subscriber is in the map of a stack. -/
def Registered (s : WatchService) (i : ℕ) : Prop :=
  ∃ id, ∃ r ∈ (s.live.service.stack id).subscribers.toList, r.sub = i

/-- The streams are of the same node. -/
def SameNode (s : WatchService) (i j : ℕ) : Prop :=
  (s.live.service.ids[i]?).map (fun id => (id.stackID, id.nodeID)) =
    (s.live.service.ids[j]?).map fun id => (id.stackID, id.nodeID)

/-- The stream is dead, or a newer one of its node is alive. -/
def Superseded (s : WatchService) (i : ℕ) : Prop :=
  s.Dead i ∨ ∃ j < s.live.service.ids.length, i < j ∧ s.SameNode i j ∧ ¬ s.Dead j

/-- The stream is the newest of its node that is alive. -/
def Newest (s : WatchService) (i : ℕ) : Prop :=
  ¬ s.Dead i ∧ ∀ j < s.live.service.ids.length, i < j → s.SameNode i j → s.Dead j

/-- The heartbeat that the step applies, with the subscriber of its stream. -/
def applies (s : WatchService) : LiveAction → Option (Heartbeat × ℕ)
  | .next =>
    match s.live.holder with
    | some (.call (.heartbeat hb i _ _ :: _)) => some (hb, i)
    | _ => none
  | _ => none

/-- A heartbeat of a superseded stream finds a later incarnation of the node on record. -/
def Outdated (s : WatchService) (a : LiveAction) : Prop :=
  ∀ x ∈ s.applies a, s.Superseded x.2 → s.live.service.Outpaced x.1

instance (s : WatchService) (i : ℕ) : Decidable (s.Dead i) := by
  unfold Dead
  infer_instance

instance (s : WatchService) (i j : ℕ) : Decidable (s.SameNode i j) := by
  unfold SameNode
  infer_instance

instance (s : WatchService) (i : ℕ) : Decidable (s.Superseded i) := by
  unfold Superseded
  infer_instance

instance (s : WatchService) (a : LiveAction) : Decidable (s.Outdated a) := by
  unfold Outdated
  infer_instance

/-- No `Watch` call registers a new stream, no demotion is under way, and no pruning leaves the node
out. -/
def Calm (id node : Bytes) (s : WatchService) : LiveAction → Prop
  | .register .. => False
  | .next =>
    match s.live.holder with
    | some (.call (.prune k now _ :: _)) => k = id → s.live.service.PruneKeeps k now node
    | some (.demotion ..) => False
    | _ => True
  | _ => True

variable {s u : WatchService} {a : LiveAction}

theorem live_of_step (h : s.step a = some u) : s.live.step a = some u.live := by
  obtain ⟨live, enabled, h⟩ := Option.bind_eq_some_iff.1 h
  cases h
  exact enabled

theorem returned_of_step (h : s.step a = some u) :
    u.returned = s.returned ++ (returns s.live a).toList := by
  obtain ⟨live, -, h⟩ := Option.bind_eq_some_iff.1 h
  cases h
  rfl

/-- What holds in every state of a run. -/
structure Named (s : WatchService) : Prop where
  kept : s.live.Kept
  named : s.live.service.Named

theorem named_new (cfg : Config) (stackID : Bytes) : (new cfg stackID).Named :=
  ⟨LiveService.kept_new cfg stackID, fun _ _ member => absurd member List.not_mem_nil⟩

theorem Named.step (h : s.Named) (enabled : s.step a = some u) : u.Named := by
  have live := live_of_step enabled
  refine ⟨h.kept.turn (LiveService.step_turn live), ?_⟩
  by_cases is : a = .next
  · subst is
    rcases LiveService.step_next live with ⟨p, rest, held, same⟩ | ⟨-, ids, fewer⟩
    · rw [same]
      exact h.named.runPart (h.kept.ownParts held p (.head rest))
    · refine h.named.congr (fun i dst found => ?_) fewer
      rwa [ids]
  · obtain ⟨stack, ids⟩ := LiveService.step_of_ne_next live is
    refine h.named.congr (fun i dst found => ?_) fun id r member => ?_
    · rcases ids with same | ⟨k, mine, io, id, -, same⟩
      · rwa [same]
      · rw [same]
        exact (List.getElem?_append_left (List.getElem?_eq_some_iff.1 found).1).trans found
    · rwa [stack] at member

theorem Dead.step {i : ℕ} (dead : s.Dead i) (h : s.Named) (enabled : s.step a = some u) :
    u.Dead i :=
  dead.imp (fun closed => (LiveService.step_turn (live_of_step enabled)).closed h.kept closed)
    fun returned => (returned_of_step enabled).symm ▸ List.mem_append_left _ returned

theorem applies_eq_some {hb : Heartbeat} {i : ℕ} (h : s.applies a = some (hb, i)) :
    a = .next ∧ ∃ now event rest,
      s.live.holder = some (.call (.heartbeat hb i now event :: rest)) := by
  unfold applies at h
  split at h
  · split at h
    · next now event rest held =>
      cases h
      exact ⟨rfl, now, event, rest, held⟩
    · cases h
  · cases h

theorem applies_next {hb : Heartbeat} {i : ℕ} {now : ℤ} {event : Broadcast} {rest : List Part}
    (held : s.live.holder = some (.call (.heartbeat hb i now event :: rest))) :
    s.applies .next = some (hb, i) := by
  rw [applies, held]

/-- The service after the heartbeat that the step applies. -/
theorem service_of_applies (enabled : s.step a = some u) {hb : Heartbeat} {i : ℕ}
    (h : s.applies a = some (hb, i)) :
    ∃ now event, u.live.service = s.live.service.applyHeartbeat hb i now event := by
  obtain ⟨rfl, now, event, rest, held⟩ := applies_eq_some h
  rcases LiveService.step_next (live_of_step enabled) with ⟨p, _, held', same⟩ | ⟨demotion, -⟩
  · rw [held] at held'
    cases held'
    exact ⟨now, event, same⟩
  · obtain ⟨_, _, _, _, held'⟩ := demotion
    rw [held] at held'
    cases held'

/-- No registration of a dead stream is new. -/
theorem Dead.not_stored {i : ℕ} (dead : s.Dead i) (enabled : s.step a = some u)
    (outdated : s.Outdated a) {id : Bytes} {r : Registration} (own : r.sub = i)
    (h : r ∈ (u.live.service.stack id).subscribers.toList) :
    r ∈ (s.live.service.stack id).subscribers.toList := by
  have live := live_of_step enabled
  by_cases is : a = .next
  · subst is
    rcases LiveService.step_next live with ⟨p, rest, held, same⟩ | ⟨-, -, fewer⟩
    · rw [same] at h
      rcases Service.mem_subscribers_runPart h with old | ⟨hb, now, event, rfl, fresh, -⟩
      · exact old
      · subst own
        exact absurd (outdated _ (applies_next held) (.inl dead)) fresh
    · exact fewer id r h
  · rwa [(LiveService.step_of_ne_next live is).1] at h

/-- Another stream of the node is superseded by the newest one. -/
theorem Newest.superseded {i j : ℕ} (newest : s.Newest i) (known : i < s.live.service.ids.length)
    (known' : j < s.live.service.ids.length) (same : s.SameNode i j) (other : j ≠ i) :
    s.Superseded j := by
  rcases lt_or_gt_of_ne other with older | newer
  · exact .inr ⟨i, known, older, same.symm, newest.1⟩
  · exact .inl (newest.2 j known' newer same)

/-- The newest stream stays registered, unless it dies. -/
theorem Newest.step {id : Bytes} {r : Registration} (newest : s.Newest r.sub) (h : s.Named)
    (registered : r ∈ (s.live.service.stack id).subscribers.toList)
    (enabled : s.step a = some u) (outdated : s.Outdated a) (calm : Calm id r.nodeID s a) :
    u.Dead r.sub ∨
      u.Newest r.sub ∧ r ∈ (u.live.service.stack id).subscribers.toList := by
  have live := live_of_step enabled
  by_cases dead : u.Dead r.sub
  · exact .inl dead
  have newest' (ids : u.live.service.ids = s.live.service.ids) : u.Newest r.sub := by
    refine ⟨dead, fun j known newer same => ?_⟩
    unfold SameNode at same
    rw [ids] at known same
    exact (newest.2 j known newer same).step h enabled
  obtain ⟨dst, found, stack, node⟩ := h.named id r registered
  by_cases is : a = .next
  · subst is
    rcases LiveService.step_next live with ⟨p, rest, held, same⟩ | ⟨⟨_, _, _, _, held⟩, -⟩
    · refine .inr ⟨newest' ?_, ?_⟩
      · rw [same, Service.ids_runPart]
      rw [same]
      rcases Service.subscribers_runPart_kept (p := p) registered with kept | rfl |
        ⟨now, io, rfl, dropped⟩ | ⟨hb, i, now, event, rfl, fresh, rfl, node', other⟩
      · exact kept
      · refine absurd (.inr ?_) dead
        rw [returned_of_step enabled, returns, held]
        simp
      · unfold Calm at calm
        rw [held] at calm
        exact absurd (calm rfl) dropped
      · have own := h.kept.ownParts held _ (.head rest)
        refine absurd (outdated _ (applies_next held) (newest.superseded ?_ ?_ ?_ other)) fresh
        · exact (List.getElem?_eq_some_iff.1 found).1
        · exact (List.getElem?_eq_some_iff.1 own).1
        · unfold SameNode
          rw [found, own]
          simp [Heartbeat.stream, stack, node, node']
    · unfold Calm at calm
      rw [held] at calm
      exact calm.elim
  · obtain ⟨unmoved, ids⟩ := LiveService.step_of_ne_next live is
    refine .inr ⟨newest' ?_, ?_⟩
    · rcases ids with same | ⟨k, mine, io, id, rfl, -⟩
      · exact same
      · exact calm.elim
    · rwa [unmoved]

end WatchService

open WatchService

/-- In every state of the service: as long as heartbeats of superseded streams are outdated, a dead
stream stays dead and gets no registration that it does not have, its heartbeats close nobody, and
the newest stream of a node that is alive stays registered until it dies, if no `Watch` call comes,
no demotion and no pruning that leaves the node out.  A heartbeat of a superseded stream that is not
outdated registers the stream. -/
theorem dead_stream_never_displaces {cfg : Config} {stackID : Bytes} {as : List LiveAction}
    {s : WatchService} (reached : Run step anyAction (.new cfg stackID) as s) :
    (∀ bs u, Run step Outdated s bs u → ∀ i, s.Dead i → u.Dead i ∧
      ∀ id, ∀ r ∈ (u.live.service.stack id).subscribers.toList, r.sub = i →
        r ∈ (s.live.service.stack id).subscribers.toList) ∧
    (∀ a u hb i, s.step a = some u → s.Outdated a → s.applies a = some (hb, i) → s.Dead i →
      ∀ j, u.live.service.closed j = s.live.service.closed j) ∧
    (∀ bs u id r, Run step (fun v a => v.Outdated a ∧ Calm id r.nodeID v a) s bs u →
      s.Newest r.sub → r ∈ (s.live.service.stack id).subscribers.toList →
      u.Dead r.sub ∨ r ∈ (u.live.service.stack id).subscribers.toList) ∧
    ∀ a u, s.step a = some u → ¬ s.Outdated a →
      ∃ hb i, s.applies a = some (hb, i) ∧ s.Superseded i ∧ u.Registered i := by
  have named := reached.invariant Named (named_new cfg stackID) fun _ _ _ h _ enabled =>
    h.step enabled
  refine ⟨fun bs u run i dead => ?_, fun a u hb i enabled outdated applied dead j => ?_,
    fun bs u id r run newest registered => ?_, fun a u enabled late => ?_⟩
  · refine (run.invariant (fun v => v.Named ∧ v.Dead i ∧
      ∀ id, ∀ r ∈ (v.live.service.stack id).subscribers.toList, r.sub = i →
        r ∈ (s.live.service.stack id).subscribers.toList)
      ⟨named, dead, fun _ _ member _ => member⟩ ?_).2
    rintro v a w ⟨named, dead, old⟩ outdated enabled
    refine ⟨named.step enabled, dead.step named enabled, fun id r member own => ?_⟩
    exact old id r (dead.not_stored enabled outdated own member) own
  · obtain ⟨now, event, same⟩ := service_of_applies enabled applied
    rw [same, Service.applyHeartbeat_of_outpaced (outdated _ applied (.inl dead))]
  · refine (run.invariant (fun v => v.Named ∧ (v.Dead r.sub ∨
      v.Newest r.sub ∧ r ∈ (v.live.service.stack id).subscribers.toList))
      ⟨named, .inr ⟨newest, registered⟩⟩ ?_).2.imp_right And.right
    rintro v a w ⟨named, dead | ⟨newest, registered⟩⟩ ⟨outdated, calm⟩ enabled
    · exact ⟨named.step enabled, .inl (dead.step named enabled)⟩
    · exact ⟨named.step enabled, newest.step named registered enabled outdated calm⟩
  · unfold Outdated at late
    push Not at late
    obtain ⟨⟨hb, i⟩, applied, superseded, fresh⟩ := late
    obtain ⟨now, event, same⟩ := service_of_applies enabled applied
    refine ⟨hb, i, applied, superseded, hb.stackID, ⟨hb.nodeID, i⟩, ?_, rfl⟩
    rw [same, Service.mem_subscribers_applyHeartbeat fresh]
    exact .inr ⟨rfl, rfl⟩

/-- Node 1 of stack 97 opens a stream, and then another one as the given incarnation. -/
def reopen (incarnation : ℤ) : List LiveAction :=
  [.watch (beatOf 1), .register 0 false (beatAt 0), .next, .next, .next, .unlock,
    .watch { beatOf 1 with incarnation := incarnation }, .register 0 false (beatAt 1), .next, .next,
    .next, .unlock]

/-- A heartbeat that was sent on the first stream. -/
def lateBeat : List LiveAction := [.receiveHeartbeat 0 (beatOf 1) (beatAt 2), .next, .next, .next]

/-- The registrations of stack 97. -/
def WatchService.registrations (s : WatchService) : List Registration :=
  (s.live.service.stack [97]).subscribers.toList

/-- The second stream is that of a later incarnation, and the heartbeat is ignored. -/
theorem dead_stream_never_displaces_restarted :
    ∃ s u, Run step anyAction (.new standardConfig [97]) (reopen 2) s ∧ s.Dead 0 ∧
      s.registrations = [⟨[1], 1⟩] ∧ Run step Outdated s lateBeat u ∧
      ∀ r ∈ u.registrations, r.sub = 0 → r ∈ s.registrations := by
  obtain ⟨s, run, dead, registered, runs⟩ := Run.exists_of_exec step anyAction
    (.new standardConfig [97]) (reopen 2)
    (fun s => s.Dead 0 ∧ s.registrations = [⟨[1], 1⟩] ∧ (exec step Outdated s lateBeat).isSome)
    (by decide +kernel)
  obtain ⟨u, evaluated⟩ := Option.isSome_iff_exists.1 runs
  have late := Run.of_exec evaluated
  exact ⟨s, u, run, dead, registered, late,
    ((dead_stream_never_displaces run).1 lateBeat u late 0 dead).2 [97]⟩

/-- Both streams are of the same incarnation.  The heartbeat registers the first one again, which is
closed, and closes the second one. -/
theorem late_heartbeat_displaces :
    ∃ s u, Run step anyAction (.new standardConfig [97]) (reopen 1) s ∧ s.Dead 0 ∧ ¬ s.Dead 1 ∧
      s.registrations = [⟨[1], 1⟩] ∧ Run step anyAction s lateBeat u ∧
      u.registrations = [⟨[1], 0⟩] ∧ u.Dead 1 := by
  obtain ⟨s, run, dead, alive, registered, runs⟩ := Run.exists_of_exec step anyAction
    (.new standardConfig [97]) (reopen 1)
    (fun s => s.Dead 0 ∧ ¬ s.Dead 1 ∧ s.registrations = [⟨[1], 1⟩] ∧
      (exec step anyAction s lateBeat).any fun u => u.registrations = [⟨[1], 0⟩] ∧ u.Dead 1)
    (by decide +kernel)
  obtain ⟨u, late, after⟩ := Run.exists_of_exec step anyAction s lateBeat _ runs
  exact ⟨s, u, run, dead, alive, registered, late, after⟩

end OlricStack.Topology
