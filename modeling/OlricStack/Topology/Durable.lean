import OlricStack.Topology.Service

/-!
# Durable epochs

An epoch must be in the store before an envelope shows it to a node.  The epoch in memory is counted
up before it is saved, and it stays there when the save fails.  What keeps it from being sent is one
error flag for all stacks, and a success for any stack takes the flag back
(`flag_of_other_stack_publishes`).  Epochs are published durably in every run in which the store
answers for one stack only while the epochs of the others are durable (`published_durably`).
-/

namespace OlricStack.Topology

open Transition Watchdog

/-! ## Published and durable epochs -/

/-- The epoch of the stack that the event has brought into or out of the store. -/
def ServiceEvent.stored (id : Bytes) : ServiceEvent → Option ℤ
  | .loaded id' epoch => if id' = id then some epoch else none
  | .saved id' epoch => if id' = id then some epoch else none
  | _ => none

/-- The envelope that the event has made visible. -/
def ServiceEvent.published : ServiceEvent → Option TopologyEnvelope
  | .enqueued _ env => some env
  | .returned env => some env
  | _ => none

/-- An epoch at least as high has been saved, or loaded. -/
def Durable (log : List ServiceEvent) (id : Bytes) (epoch : ℤ) : Prop :=
  ∃ ev ∈ log, ∃ stored ∈ ev.stored id, epoch ≤ stored

instance (log : List ServiceEvent) (id : Bytes) (epoch : ℤ) : Decidable (Durable log id epoch) := by
  unfold Durable
  infer_instance

/-- Every primary envelope was published after its epoch had become durable. -/
def PublishedDurably (log : List ServiceEvent) : Prop :=
  ∀ before ev after env, log = before ++ ev :: after → ev.published = some env →
    env.watchdogRole = .primary → Durable before env.stackID env.epoch

theorem Durable.append {log : List ServiceEvent} {id : Bytes} {epoch : ℤ} (h : Durable log id epoch)
    (more : List ServiceEvent) : Durable (log ++ more) id epoch := by
  obtain ⟨ev, hev, stored, hstored, le⟩ := h
  exact ⟨ev, List.mem_append_left _ hev, stored, hstored, le⟩

theorem PublishedDurably.snoc {log : List ServiceEvent} (h : PublishedDurably log)
    {ev : ServiceEvent} (durable : ∀ env, ev.published = some env →
      env.watchdogRole = .primary → Durable log env.stackID env.epoch) :
    PublishedDurably (log ++ [ev]) := by
  intro before ev' after env split published primary
  rcases snoc_eq_split_cases split with ⟨after', old⟩ | ⟨rfl, rfl⟩
  · exact h before ev' after' env old published primary
  · exact durable env published primary

/-! ## What holds between the calls -/

/-- The epoch of the stack may be sent to its nodes: it is durable, or there are none. -/
def Settled (s : Service) (id : Bytes) : Prop :=
  (s.stack id).cluster.nodes.toList = [] ∨ Durable s.log id (s.stack id).cluster.epoch

/-- All stacks but one are settled. -/
def Others (s : Service) (id : Bytes) : Prop := ∀ k, k ≠ id → Settled s k

/-- Whatever was published was saved before, in every run. -/
structure Sound (s : Service) : Prop where
  store : s.cfg.hasEpochStore = true
  /-- nodes come in by heartbeats, which load the epoch first -/
  unloaded : ∀ id, (s.stack id).loadedEpoch = false → (s.stack id).cluster.nodes.toList = []
  published : PublishedDurably s.log
  settled : s.epochErr = none → ∀ id, Settled s id

/-- In the middle of a call on a stack whose epoch has been counted up and is still to be saved;
`may` says that the store may answer in this call. -/
structure Unsaved (id : Bytes) (may : Prop) (s : Service) : Prop where
  store : s.cfg.hasEpochStore = true
  unloaded : ∀ k, (s.stack k).loadedEpoch = false → (s.stack k).cluster.nodes.toList = []
  published : PublishedDurably s.log
  others : may ∨ s.epochErr = none → Others s id

/-- The same with the epoch saved, or the error flag set. -/
structure During (id : Bytes) (may : Prop) (s : Service) : Prop extends Unsaved id may s where
  settled : s.epochErr = none → Settled s id

theorem Sound.during {s : Service} (h : Sound s) {id : Bytes} {may : Prop}
    (others : may → Others s id) : During id may s where
  store := h.store
  unloaded := h.unloaded
  published := h.published
  others := fun
    | .inl ok => others ok
    | .inr clear => fun k _ => h.settled clear k
  settled clear := h.settled clear id

theorem During.sound {id : Bytes} {may : Prop} {s : Service} (h : During id may s) : Sound s where
  store := h.store
  unloaded := h.unloaded
  published := h.published
  settled clear k := by
    by_cases same : k = id
    · rw [same]
      exact h.settled clear
    · exact h.others (.inr clear) k same

section Calls

variable {id : Bytes} {may : Prop} {s : Service}

theorem Unsaved.setStack (h : Unsaved id may s) {st : StackState} (same : st.stackID = id)
    (unloaded : st.loadedEpoch = false → st.cluster.nodes.toList = []) :
    Unsaved id may (s.setStack st) := by
  subst same
  refine ⟨h.store, fun k => ?_, h.published, fun may k other => ?_⟩
  · by_cases same : k = st.stackID
    · rw [same, Service.stack_setStack_self]
      exact unloaded
    · rw [Service.stack_setStack_of_ne s same]
      exact h.unloaded k
  · have settled := h.others may k other
    rwa [Settled, Service.stack_setStack_of_ne s other]

theorem Unsaved.record (h : Unsaved id may s) {ev : ServiceEvent}
    (durable : ∀ env, ev.published = some env → env.watchdogRole = .primary →
      Durable s.log env.stackID env.epoch) : Unsaved id may (s.record ev) where
  store := h.store
  unloaded := h.unloaded
  published := h.published.snoc durable
  others may k other := (h.others may k other).imp_right fun durable => durable.append [ev]

theorem During.record (h : During id may s) {ev : ServiceEvent}
    (durable : ∀ env, ev.published = some env → env.watchdogRole = .primary →
      Durable s.log env.stackID env.epoch) : During id may (s.record ev) where
  toUnsaved := h.toUnsaved.record durable
  settled clear := (h.settled clear).imp_right fun durable => durable.append [ev]

/-- An error sets the flag. -/
theorem Unsaved.fail (h : Unsaved id may s) (err : EpochError) :
    During id may (s.setEpochError (some err)) where
  store := h.store
  unloaded := h.unloaded
  published := h.published
  others := fun
    | .inl ok => h.others (.inl ok)
    | .inr clear => nomatch clear
  settled clear := nomatch clear

/-- A success takes the flag back. -/
theorem Unsaved.succeed (h : Unsaved id may s) (ok : may) (settled : Settled s id) :
    During id may (s.setEpochError none) where
  store := h.store
  unloaded := h.unloaded
  published := h.published
  others _ := h.others (.inl ok)
  settled _ := settled

/-- The channels do not matter. -/
theorem Unsaved.setSubs (h : Unsaved id may s) (subs : List Subscriber) :
    Unsaved id may { s with subs := subs } :=
  ⟨h.store, h.unloaded, h.published, h.others⟩

theorem During.setSubs (h : During id may s) (subs : List Subscriber) :
    During id may { s with subs := subs } :=
  ⟨h.toUnsaved.setSubs subs, h.settled⟩

theorem During.enqueue (h : During id may s) {env : TopologyEnvelope} (i : ℕ)
    (durable : Durable s.log env.stackID env.epoch) : During id may (s.enqueue i env) := by
  unfold Service.enqueue
  split
  · exact h
  · split_ifs
    · refine (h.setSubs _).record ?_
      rintro _ ⟨⟩ -
      exact durable
    · exact h

theorem Durable.enqueue {k : Bytes} {epoch : ℤ} (h : Durable s.log k epoch) (i : ℕ)
    (env : TopologyEnvelope) : Durable (s.enqueue i env).log k epoch := by
  unfold Service.enqueue
  split
  · exact h
  · split_ifs
    · exact h.append _
    · exact h

theorem Unsaved.saveEpochLocked (h : Unsaved id may s) {saveErr : Option String}
    (ok : saveErr = none → may) {epoch : ℤ} (current : epoch = (s.stack id).cluster.epoch) :
    During id may (s.saveEpochLocked id epoch saveErr).1 ∧
      ((s.saveEpochLocked id epoch saveErr).2 = true →
        Durable (s.saveEpochLocked id epoch saveErr).1.log id epoch) := by
  unfold Service.saveEpochLocked
  rw [h.store, if_neg Bool.noConfusion]
  cases saveErr with
  | some text => exact ⟨h.fail _, nofun⟩
  | none =>
    have durable : Durable (s.log ++ [.saved id epoch]) id epoch :=
      ⟨.saved id epoch, by simp, epoch, by simp [ServiceEvent.stored], le_rfl⟩
    have recorded : Unsaved id may (s.record (.saved id epoch)) := h.record (by rintro env ⟨⟩)
    refine ⟨recorded.succeed (ok rfl) (.inr ?_), fun _ => durable⟩
    rw [Service.stack_record, ← current]
    exact durable

theorem During.sends (h : During id may s) {env : TopologyEnvelope}
    (durable : Durable s.log env.stackID env.epoch) (rs : List Registration) :
    During id may (rs.foldl (fun s r => s.enqueue r.sub env) s) := by
  induction rs generalizing s with
  | nil => exact h
  | cons r rs ih =>
    exact ih (h.enqueue r.sub durable) (durable.enqueue r.sub env)

theorem Unsaved.broadcastLocked (h : Unsaved id may s) (reason : TopologyReason) {io : Broadcast}
    (ok : io.saveErr = none → may) : During id may (s.broadcastLocked id reason io) := by
  obtain ⟨saved, durable⟩ := h.saveEpochLocked ok
    (rfl : (s.envelopeFor id reason io.now).epoch = (s.stack id).cluster.epoch)
  unfold Service.broadcastLocked
  dsimp only
  split_ifs with done
  · exact saved.sends (durable done) _
  · exact saved

/-- A review that has changed nothing. -/
theorem During.review (h : During id may s) {cluster : ClusterState} {changed : Bool}
    {subscribers : KeyedSet Registration.nodeID}
    (reviewed : (s.stack id).cluster.Reviewed cluster changed) (same : ¬changed = true) :
    During id may
      (s.setStack { s.stack id with cluster := cluster, subscribers := subscribers }) := by
  have epoch : cluster.epoch = (s.stack id).cluster.epoch := by rw [reviewed.epoch, if_neg same]
  have self : (s.setStack { s.stack id with
      cluster := cluster, subscribers := subscribers }).stack id = _ :=
    s.stack_setStack_of_eq (s.stackID_stack id)
  refine ⟨h.toUnsaved.setStack ?_ fun unloaded => ?_, fun clear => ?_⟩
  · exact s.stackID_stack id
  · exact reviewed.empty (h.unloaded id unloaded)
  · unfold Settled
    rw [self]
    show cluster.nodes.toList = [] ∨ Durable s.log id cluster.epoch
    rw [epoch]
    exact (h.settled clear).imp_left reviewed.empty

/-- A node that is known makes the stack one whose epoch must be durable. -/
theorem Settled.durable {s : Service} {id nodeID : Bytes} {node : Node} (h : Settled s id)
    (known : (s.stack id).cluster.nodes.lookup nodeID = some node) :
    Durable s.log id (s.stack id).cluster.epoch := by
  rcases h with empty | durable
  · have member := ((s.stack id).cluster.nodes.lookup_eq_some_iff.1 known).1
    rw [empty] at member
    cases member
  · exact durable

theorem During.pruneExpiredLocked (h : During id may s) (now : ℤ) {io : Broadcast}
    (ok : io.saveErr = none → may) : During id may (s.pruneExpiredLocked id now io) := by
  have reviewed :=
    (s.stack id).cluster.reviewed_pruneExpired s.cfg.suspectAfter s.cfg.expireAfter now
  unfold Service.pruneExpiredLocked
  dsimp only
  split_ifs with changed
  · refine Unsaved.broadcastLocked (h.toUnsaved.setStack ?_ fun unloaded => ?_) _ ok
    · exact s.stackID_stack id
    · exact reviewed.empty (h.unloaded id unloaded)
  · exact h.review reviewed changed

theorem During.stateFor (h : During id may s) : During id may (s.stateFor id) := by
  refine ⟨h.toUnsaved.setStack (s.stackID_stack id) (h.unloaded id), fun clear => ?_⟩
  have settled := h.settled clear
  rwa [Settled, Service.stateFor, s.stack_setStack_of_eq (s.stackID_stack id)]

theorem During.loadEpochLocked (h : During id may s) {load : Except String ℤ}
    (ok : load.isOk = true → may) :
    During id may (s.loadEpochLocked id load).1 ∧
      ((s.loadEpochLocked id load).2 = true →
        ((s.loadEpochLocked id load).1.stack id).loadedEpoch = true) := by
  unfold Service.loadEpochLocked
  dsimp only
  split_ifs with loaded without
  · exact ⟨h, fun _ => loaded⟩
  · rw [h.store] at without
    cases without
  · have empty := h.unloaded id (Bool.eq_false_iff.2 loaded)
    cases load with
    | error text => exact ⟨h.toUnsaved.fail _, nofun⟩
    | ok epoch =>
      have self : (s.setStack { s.stack id with
          loadedEpoch := true
          cluster := (s.stack id).cluster.bumpEpochAtLeast epoch }).stack id = _ :=
        s.stack_setStack_of_eq (s.stackID_stack id)
      refine ⟨Unsaved.succeed (Unsaved.record (h.toUnsaved.setStack ?_ ?_) ?_) (ok rfl) ?_, ?_⟩
      · exact s.stackID_stack id
      · exact fun unloaded => Bool.noConfusion unloaded
      · rintro env ⟨⟩
      · unfold Settled
        rw [Service.stack_record, self]
        exact .inl (by rw [ClusterState.nodes_bumpEpochAtLeast, empty])
      · intro _
        rw [Service.stack_setEpochError, Service.stack_record, self]

/-- A registration in a stack whose epoch is loaded. -/
theorem Unsaved.subscribe {hb : Heartbeat} (h : Unsaved hb.stackID may s) (cluster : ClusterState)
    (i : ℕ) (loaded : (s.stack hb.stackID).loadedEpoch = true) :
    Unsaved hb.stackID may (s.subscribe hb cluster i) := by
  obtain ⟨subs, same⟩ := s.subscribe_eq hb cluster i
  rw [same]
  refine Unsaved.record ((h.setSubs subs).setStack ?_ ?_) ?_
  · exact s.stackID_stack hb.stackID
  · intro unloaded
    rw [loaded] at unloaded
    cases unloaded
  · rintro env ⟨⟩

/-- A registration of a node that was known, with the epoch as it was. -/
theorem During.subscribe {hb : Heartbeat} (h : During hb.stackID may s) {cluster : ClusterState}
    (i : ℕ) (loaded : (s.stack hb.stackID).loadedEpoch = true)
    (epoch : cluster.epoch = (s.stack hb.stackID).cluster.epoch) {nodeID : Bytes} {node : Node}
    (known : (s.stack hb.stackID).cluster.nodes.lookup nodeID = some node) :
    During hb.stackID may (s.subscribe hb cluster i) := by
  refine ⟨h.toUnsaved.subscribe cluster i loaded, ?_⟩
  unfold Settled
  rw [s.stack_subscribe hb cluster i]
  obtain ⟨subs, same⟩ := s.subscribe_eq hb cluster i
  rw [same]
  intro clear
  have durable := (h.settled clear).durable known
  rw [← epoch] at durable
  exact .inr (durable.append _)

theorem During.sendLatestLocked (h : During id may s) (i : ℕ) (reason : TopologyReason) (now : ℤ)
    {nodeID : Bytes} {node : Node}
    (known : (s.stack id).cluster.nodes.lookup nodeID = some node) :
    During id may (s.sendLatestLocked id i reason now) := by
  unfold Service.sendLatestLocked
  split_ifs with degraded
  · exact h
  · exact h.enqueue i ((h.settled (not_not.1 degraded)).durable known)

theorem During.applyHeartbeat {hb : Heartbeat} (h : During hb.stackID may s) (i : ℕ) (now : ℤ)
    {event : Broadcast} (loaded : (s.stack hb.stackID).loadedEpoch = true)
    (ok : event.saveErr = none → may) :
    During hb.stackID may (s.applyHeartbeat hb i now event) := by
  have spec := (s.stack hb.stackID).cluster.applyHeartbeat_spec (Service.observation hb now)
  unfold Service.applyHeartbeat
  dsimp only
  split
  · exact h
  · exact (h.toUnsaved.subscribe _ i loaded).broadcastLocked _ ok
  · next unchanged =>
    rcases spec with ⟨stale, -⟩ | ⟨⟨changed, -⟩ | ⟨-, epoch, node, known, -⟩, ⟨node', known', -⟩, -⟩
    · rw [unchanged] at stale
      cases stale
    · rw [unchanged] at changed
      cases changed
    · have registered := h.subscribe i loaded epoch known
      have present : ∀ cluster : ClusterState, cluster.nodes.lookup hb.nodeID = some node' →
          ((s.subscribe hb cluster i).stack hb.stackID).cluster.nodes.lookup hb.nodeID =
            some node' := by
        intro cluster known
        rwa [s.stack_subscribe]
      split_ifs
      · exact registered.sendLatestLocked i _ _ (present _ known')
      · exact registered

theorem During.registerHeartbeat {hb : Heartbeat} (h : During hb.stackID may s) (i : ℕ)
    {io : HeartbeatScript}
    (ok : io.load.isOk = true ∨ io.prune.saveErr = none ∨ io.event.saveErr = none → may) :
    During hb.stackID may (s.registerHeartbeat hb i io) := by
  obtain ⟨loads, loaded⟩ := h.stateFor.loadEpochLocked fun h => ok (.inl h)
  unfold Service.registerHeartbeat
  dsimp only
  split_ifs with success
  · refine (loads.pruneExpiredLocked io.now fun h => ok (.inr (.inl h))).applyHeartbeat i io.now ?_
      fun h => ok (.inr (.inr h))
    rw [Service.loadedEpoch_pruneExpiredLocked]
    exact loaded success
  · exact loads

theorem During.observePods (h : During id may s) (observations : List PodObservation)
    {load : Except String ℤ} (now : ℤ) {io : Broadcast}
    (ok : load.isOk = true ∨ io.saveErr = none → may) :
    During id may (s.observePods id observations load now io) := by
  obtain ⟨loads, -⟩ := h.stateFor.loadEpochLocked fun h => ok (.inl h)
  unfold Service.observePods
  dsimp only
  split_ifs with primary success changed
  · refine Unsaved.broadcastLocked (loads.toUnsaved.setStack ?_ fun unloaded => ?_) _
      fun h => ok (.inr h)
    · exact Service.stackID_stack _ id
    · exact (ClusterState.reviewed_applyPodObservations _ _ _ _).empty (loads.unloaded id unloaded)
  · exact loads.review (ClusterState.reviewed_applyPodObservations _ _ _ _) changed
  · exact loads
  · exact h

theorem During.getTopology (h : During id may s) {load : Except String ℤ} (now : ℤ)
    {prune io : Broadcast}
    (ok : load.isOk = true ∨ prune.saveErr = none ∨ io.saveErr = none → may) :
    During id may (s.getTopology id load now prune io) := by
  obtain ⟨loads, -⟩ := h.stateFor.loadEpochLocked fun h => ok (.inl h)
  have prunes := loads.pruneExpiredLocked now fun h => ok (.inr (.inl h))
  unfold Service.getTopology
  dsimp only
  split_ifs with missing primary success done
  · exact h
  · obtain ⟨saves, durable⟩ := prunes.toUnsaved.saveEpochLocked
      (fun h => ok (.inr (.inr h))) (rfl : (Service.envelopeFor _ id .bookworm io.now).epoch = _)
    refine saves.record ?_
    rintro env ⟨⟩ -
    exact durable done
  · exact (prunes.toUnsaved.saveEpochLocked (fun h => ok (.inr (.inr h))) rfl).1
  · exact loads
  · refine h.record ?_
    rintro env ⟨⟩ role
    exact absurd (decide_eq_true (show s.cfg.role = .primary from role)) primary

end Calls

/-! ## Runs -/

theorem others_iff (s : Service) (id : Bytes) :
    Others s id ↔ ∀ st ∈ s.stackMap.toList, st.stackID ≠ id → Settled s st.stackID := by
  refine ⟨fun h st _ => h st.stackID, fun h k other => ?_⟩
  cases found : s.stackMap.lookup k with
  | none =>
    refine .inl ?_
    rw [Service.stack, found]
    rfl
  | some st =>
    obtain ⟨member, rfl⟩ := s.stackMap.lookup_eq_some_iff.1 found
    exact h st member other

instance (s : Service) (id : Bytes) : Decidable (Settled s id) := by
  unfold Settled
  infer_instance

instance (s : Service) (id : Bytes) : Decidable (Others s id) :=
  decidable_of_iff _ (others_iff s id).symm

/-- The store answers for one stack only while the others are settled.  An answer of the script that
the call does not come to counts as one, so it is an error in the script. -/
def AnswersWhenSettled (s : Server) : ServerAction → Prop
  | .watch hb io | .receiveHeartbeat _ hb io =>
    io.load.isOk = true ∨ io.prune.saveErr = none ∨ io.event.saveErr = none →
      Others s.service hb.stackID
  | .observePods id _ load _ io => load.isOk = true ∨ io.saveErr = none → Others s.service id
  | .getTopology id load _ prune io =>
    load.isOk = true ∨ prune.saveErr = none ∨ io.saveErr = none → Others s.service id
  | .tick io => io.saveErr = none → ∀ t ∈ s.tick, ∀ id ∈ t.rest.head?, Others s.service id
  | _ => True

theorem sound_new {cfg : Config} (store : cfg.hasEpochStore = true) : Sound (.new cfg) where
  store := store
  unloaded _ _ := rfl
  published := by
    intro before ev after env split
    cases before <;> cases split
  settled _ _ := .inl rfl

theorem Sound.step {s u : Server} {a : ServerAction} (h : Sound s.service)
    (ok : AnswersWhenSettled s a) (enabled : s.step a = some u) : Sound u.service := by
  cases Server.steps_of_step enabled with
  | watch =>
    dsimp only
    unfold Service.watch
    split_ifs
    · exact h
    · exact (((h.during ok).setSubs _).registerHeartbeat _ id).sound
    · exact h
  | receiveHeartbeat =>
    dsimp only
    unfold Service.receiveHeartbeat
    split_ifs
    · exact h
    · exact h
    · exact ((h.during ok).registerHeartbeat _ id).sound
  | receiveEnvelope => exact ⟨h.store, h.unloaded, h.published, h.settled⟩
  | @unregister i sub =>
    have during : During sub.id.stackID False s.service := h.during False.elim
    dsimp only
    unfold Service.unregister
    dsimp only
    split
    · split_ifs
      · exact (during.review (.refl _) Bool.false_ne_true).sound
      · exact during.stateFor.sound
    · exact during.stateFor.sound
  | observePods => exact ((h.during ok).observePods _ _ id).sound
  | getTopology => exact ((h.during ok).getTopology _ id).sound
  | reaperCheck | bookwormCheck | reaperLock | reaperStandby | bookwormLock | bookwormStandby
  | unlock => exact h
  | @tick io reaper k rest ticking =>
    have during : During k (io.saveErr = none) s.service :=
      h.during fun success => ok success ⟨reaper, k :: rest⟩ ticking k rfl
    cases reaper with
    | some now => exact (during.pruneExpiredLocked _ id).sound
    | none => exact (during.toUnsaved.broadcastLocked _ id).sound

/-- In every run in which the store answers for one stack only while every other stack is settled,
no primary envelope is put into a channel or returned before its epoch is durable. -/
theorem published_durably {cfg : Config} (store : cfg.hasEpochStore = true)
    {as : List ServerAction} {s : Server}
    (run : Run Server.step AnswersWhenSettled (.new cfg) as s) :
    PublishedDurably s.service.log := by
  have sound : Sound s.service := run.invariant (fun s => Sound s.service) (sound_new store)
    fun t a u sound ok enabled => sound.step ok enabled
  exact sound.published

instance (s : Server) : DecidablePred (AnswersWhenSettled s)
  | .watch _ _ | .receiveHeartbeat _ _ _ | .observePods _ _ _ _ _ | .getTopology _ _ _ _ _
  | .tick _ => by
    unfold AnswersWhenSettled
    infer_instance
  | .receiveEnvelope _ | .unregister _ | .reaperCheck | .bookwormCheck | .reaperLock _ _
  | .bookwormLock _ => isTrue trivial

/-- A primary with an epoch store. -/
def twoStackConfig : Config := ⟨20000000000, 30000000000, 30000000000, [119], 1, .primary, true⟩

/-- A heartbeat of the one node of a stack, which has observed no epoch yet. -/
def firstHeartbeat (stackID : Bytes) : Heartbeat := ⟨stackID, [110], [112], [105], 1, 0, .ready, []⟩

/-- One node in each of two stacks, and the node of the first one again; `saveErr` is the answer of
the store to the epoch of the first stack. -/
def twoStackRun (saveErr : Option String) : List ServerAction :=
  [.watch (firstHeartbeat [97]) ⟨.ok 0, 0, ⟨0, some "not called"⟩, ⟨0, saveErr⟩⟩,
    .watch (firstHeartbeat [98]) ⟨.ok 0, 1, ⟨1, some "not called"⟩, ⟨1, none⟩⟩,
    .receiveHeartbeat 0 (firstHeartbeat [97])
      ⟨.error "not called", 2, ⟨2, some "not called"⟩, ⟨2, some "not called"⟩⟩]

theorem published_durably_two_stacks :
    ∃ s, Run Server.step AnswersWhenSettled (.new twoStackConfig) (twoStackRun none) s ∧
      (s.service.log.filterMap ServiceEvent.published).length = 3 ∧
      PublishedDurably s.service.log := by
  obtain ⟨s, run, sent⟩ := Run.exists_of_exec Server.step AnswersWhenSettled (.new twoStackConfig)
    (twoStackRun none) (fun s => (s.service.log.filterMap ServiceEvent.published).length = 3)
    (by decide +kernel)
  exact ⟨s, run, sent, published_durably rfl run⟩

/-- The epoch of the first stack is not saved; the answers for the second one take the error flag
back, and the next heartbeat in the first stack is sent the epoch. -/
theorem flag_of_other_stack_publishes :
    ∃ s, Run Server.step anyAction (.new twoStackConfig) (twoStackRun (some "store is down")) s ∧
      ∃ ev ∈ s.service.log, ∃ env ∈ ev.published, env.watchdogRole = .primary ∧
        env.stackID = [97] ∧ env.epoch = 1 ∧ ¬Durable s.service.log [97] 1 := by
  apply Run.exists_of_exec
  decide +kernel

end OlricStack.Topology
