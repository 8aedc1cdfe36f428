import OlricStack.Node.Order
import OlricStack.Topology.Service

/-!
# A node that starts again

Two processes of one node, the second with a higher incarnation and a new sequencer, and the
topology services that give them their leases.  The first heartbeat of the second process always
counts up the epoch, whatever has become of the node's record, and only envelopes made afterwards
get to the process.  So all its stamps are above those of the first process (`restart_wins_race`),
although its sequencer starts at one again.
-/

namespace OlricStack.Topology

open Transition Watchdog
open OlricStack.Node (Lease Sequencer)

/-! ## One stream of one service -/

/-- The stream that the event has registered. -/
def ServiceEvent.registration : ServiceEvent → Option StreamID
  | .registered id _ => some id
  | _ => none

namespace Service

/-- The epoch of the stream's stack. -/
def epoch (s : Service) (id : StreamID) : ℤ := (s.stack id.stackID).cluster.epoch

/-- A heartbeat of the stream has been registered. -/
def HasRegistered (s : Service) (id : StreamID) : Prop := ∃ e, .registered id e ∈ s.log

instance (s : Service) (id : StreamID) : Decidable (s.HasRegistered id) :=
  decidable_of_iff (∃ ev ∈ s.log, ev.registration = some id) <| by
    constructor
    · rintro ⟨ev, member, eq⟩
      cases ev with
      | registered dst e =>
        cases eq
        exact ⟨e, member⟩
      | loaded | saved | enqueued | returned => cases eq
    · rintro ⟨e, member⟩
      exact ⟨_, member, rfl⟩

/-- What the record and the maps of a service say about a stream. -/
structure Traced (s : Service) (id : StreamID) : Prop where
  nonneg : 0 ≤ s.epoch id
  registered : ∀ e, .registered id e ∈ s.log → e ≤ s.epoch id
  sent : ∀ dst env, dst.stackID = id.stackID → .enqueued dst env ∈ s.log →
    env.watchdogGeneration = s.cfg.generation ∧ env.epoch ≤ s.epoch id
  /-- an envelope gets to the stream only when the stream has been registered -/
  after : ∀ env, .enqueued id env ∈ s.log → ∃ e, .registered id e ∈ s.log ∧ e ≤ env.epoch
  record : ∀ node, (s.stack id.stackID).cluster.nodes.lookup id.nodeID = some node →
    node.incarnation = id.incarnation → s.HasRegistered id
  subscribed : ∀ k, ∀ r ∈ (s.stack k).subscribers.toList,
    ∃ dst, s.ids[r.sub]? = some dst ∧ dst.stackID = k ∧ (dst = id → s.HasRegistered id)

/-- The epoch `b` was reached before the stream was registered. -/
structure Before (s : Service) (b : ℤ) (id : StreamID) : Prop where
  reached : b ≤ s.epoch id
  registered : ∀ e, .registered id e ∈ s.log → b < e

theorem traced_new (cfg : Config) (id : StreamID) : (Service.new cfg).Traced id where
  nonneg := le_rfl
  registered := nofun
  sent := nofun
  after := nofun
  record := fun _ found => absurd found (Option.not_mem_none _)
  subscribed := nofun

section Moves

variable {id : StreamID} {b : ℤ} {s : Service}

/-- An event that is about no stream. -/
theorem Traced.record_other (h : s.Traced id) {ev : ServiceEvent}
    (noRegistration : ∀ dst e, .registered dst e ≠ ev)
    (noSend : ∀ dst env, .enqueued dst env ≠ ev) : (s.record ev).Traced id := by
  have registered : ∀ dst e, .registered dst e ∈ s.log ++ [ev] → .registered dst e ∈ s.log := by
    intro dst e member
    exact (List.mem_append.1 member).resolve_right fun h =>
      noRegistration dst e (List.mem_singleton.1 h)
  have sent : ∀ dst env, .enqueued dst env ∈ s.log ++ [ev] → .enqueued dst env ∈ s.log := by
    intro dst env member
    exact (List.mem_append.1 member).resolve_right fun h => noSend dst env (List.mem_singleton.1 h)
  have grown : s.HasRegistered id → (s.record ev).HasRegistered id := fun ⟨e, member⟩ =>
    ⟨e, List.mem_append_left _ member⟩
  refine ⟨h.nonneg, fun e member => h.registered e (registered _ _ member),
    fun dst env same member => h.sent dst env same (sent _ _ member), fun env member => ?_,
    fun node known same => grown (h.record node known same), fun k r hr => ?_⟩
  · obtain ⟨e, member, le⟩ := h.after env (sent _ _ member)
    exact ⟨e, List.mem_append_left _ member, le⟩
  · obtain ⟨dst, found, same, own⟩ := h.subscribed k r hr
    exact ⟨dst, found, same, fun eq => grown (own eq)⟩

theorem Before.record_other (h : s.Before b id) {ev : ServiceEvent}
    (noRegistration : ∀ dst e, .registered dst e ≠ ev) : (s.record ev).Before b id := by
  refine ⟨h.reached, fun e member => h.registered e ?_⟩
  exact (List.mem_append.1 member).resolve_right fun h =>
    noRegistration id e (List.mem_singleton.1 h)

/-- The epoch of a stack does not fall. -/
theorem Move.epoch_le {s' : Service} (m : Move s s') (id : StreamID) :
    s.epoch id ≤ s'.epoch id := by
  cases m with
  | error | loaded | saved | returned | channel | connect => exact le_rfl
  | review st up =>
    unfold epoch
    by_cases same : id.stackID = st.stackID
    · rw [same, stack_setStack_self]
      exact up
    · rw [stack_setStack_of_ne s same]
  | subscribe hb i now =>
    have spec := (s.stack hb.stackID).cluster.applyHeartbeat_spec (observation hb now)
    unfold epoch
    by_cases same : id.stackID = hb.stackID
    · rw [same, stack_subscribe]
      rcases spec with ⟨-, eq⟩ | ⟨⟨-, eq⟩ | ⟨-, eq, -⟩, -⟩
      · exact le_of_eq (congrArg ClusterState.epoch eq.symm)
      · exact le_of_lt (by rw [eq]; exact Int.lt_add_one_iff.2 le_rfl)
      · exact le_of_eq eq.symm
    · rw [stack_subscribe_of_ne s same]
  | send => rw [epoch, epoch, stack_enqueue]

theorem Traced.review (h : s.Traced id) {st : StackState}
    (up : (s.stack st.stackID).cluster.epoch ≤ st.cluster.epoch)
    (known : ∀ k node', st.cluster.nodes.lookup k = some node' →
      ∃ node, (s.stack st.stackID).cluster.nodes.lookup k = some node ∧
        node'.incarnation = node.incarnation)
    (kept : ∀ r ∈ st.subscribers.toList, r ∈ (s.stack st.stackID).subscribers.toList) :
    (s.setStack st).Traced id := by
  have le : s.epoch id ≤ (s.setStack st).epoch id := (Move.review st up known kept).epoch_le id
  refine ⟨h.nonneg.trans le, fun e member => (h.registered e member).trans le,
    fun dst env same member => ?_, h.after, fun node => ?_, fun k r => ?_⟩
  · exact (h.sent dst env same member).imp_right fun below => below.trans le
  · by_cases same : id.stackID = st.stackID
    · rw [same, stack_setStack_self]
      intro found incarnation
      obtain ⟨node', found', eq⟩ := known id.nodeID node found
      exact h.record node' (by rw [same]; exact found') (eq ▸ incarnation)
    · rw [stack_setStack_of_ne s same]
      exact h.record node
  · by_cases same : k = st.stackID
    · rw [same, stack_setStack_self]
      exact fun hr => h.subscribed st.stackID r (kept r hr)
    · rw [stack_setStack_of_ne s same]
      exact h.subscribed k r

theorem Traced.subscribe (h : s.Traced id) {hb : Heartbeat} {i : ℕ} {now : ℤ}
    (own : s.ids[i]? = some hb.stream)
    (fresh : ((s.stack hb.stackID).cluster.applyHeartbeat (observation hb now)).2 ≠ .stale) :
    (s.subscribe hb
      ((s.stack hb.stackID).cluster.applyHeartbeat (observation hb now)).1 i).Traced id := by
  have le := (Move.subscribe hb i now own fresh).epoch_le id
  have cfg := (Move.subscribe hb i now own fresh).cfg_eq
  obtain ⟨stale, -⟩ | ⟨-, ⟨node, recorded, incarnation⟩, others⟩ :=
    (s.stack hb.stackID).cluster.applyHeartbeat_spec (observation hb now)
  · exact absurd stale fresh
  generalize ((s.stack hb.stackID).cluster.applyHeartbeat (observation hb now)).1 = cluster at *
  have log := s.log_subscribe hb cluster i
  -- the registration is in the record, and what was there still is
  have self : hb.stream = id → (s.subscribe hb cluster i).HasRegistered id := by
    intro same
    refine ⟨cluster.epoch, ?_⟩
    rw [log, same]
    exact List.mem_append_right _ (List.mem_singleton_self _)
  have grown : s.HasRegistered id → (s.subscribe hb cluster i).HasRegistered id := by
    rintro ⟨e, member⟩
    refine ⟨e, ?_⟩
    rw [log]
    exact List.mem_append_left _ member
  have sent : ∀ {dst env}, .enqueued dst env ∈ (s.subscribe hb cluster i).log →
      .enqueued dst env ∈ s.log := by
    intro dst env member
    rw [log] at member
    exact (List.mem_append.1 member).resolve_right fun h => nomatch List.mem_singleton.1 h
  refine ⟨h.nonneg.trans le, fun e member => ?_, fun dst env same member => ?_,
    fun env member => ?_, fun node' => ?_, fun k r => ?_⟩
  · rw [log] at member
    rcases List.mem_append.1 member with old | new
    · exact (h.registered e old).trans le
    · obtain ⟨rfl, rfl⟩ := ServiceEvent.registered.inj (List.mem_singleton.1 new)
      rw [epoch, Heartbeat.stream, stack_subscribe]
  · rw [cfg]
    exact (h.sent dst env same (sent member)).imp_right fun below => below.trans le
  · obtain ⟨e, registered, le⟩ := h.after env (sent member)
    refine ⟨e, ?_, le⟩
    rw [log]
    exact List.mem_append_left _ registered
  · by_cases same : id.stackID = hb.stackID
    · rw [same, stack_subscribe]
      dsimp only
      by_cases this : id.nodeID = hb.nodeID
      · intro found eq
        rw [this, show hb.nodeID = (observation hb now).nodeID from rfl, recorded] at found
        cases found
        have inc : hb.incarnation = id.incarnation := incarnation.symm.trans eq
        exact self (by rw [Heartbeat.stream, ← same, ← this, inc])
      · rw [others id.nodeID this, ← same]
        exact fun found eq => grown (h.record node' found eq)
    · rw [stack_subscribe_of_ne s same]
      exact fun found eq => grown (h.record node' found eq)
  · intro hr
    rw [ids_subscribe]
    rcases mem_subscribers_subscribe hr with old | ⟨rfl, rfl⟩
    · obtain ⟨dst, found, same, registered⟩ := h.subscribed k r old
      exact ⟨dst, found, same, fun eq => grown (registered eq)⟩
    · exact ⟨hb.stream, own, rfl, self⟩

theorem Traced.send (h : s.Traced id) {k : Bytes} {r : Registration} {env : TopologyEnvelope}
    (member : r ∈ (s.stack k).subscribers.toList) (current : env.epoch = (s.stack k).cluster.epoch)
    (generation : env.watchdogGeneration = s.cfg.generation) : (s.enqueue r.sub env).Traced id := by
  obtain ⟨dst, found, rfl, own⟩ := h.subscribed k r member
  obtain same | ⟨dst', found', log⟩ := s.log_enqueue r.sub env
  · refine ⟨?_, ?_, ?_, ?_, ?_, ?_⟩ <;>
      simp only [epoch, stack_enqueue, same, cfg_enqueue, ids_enqueue, HasRegistered]
    exacts [h.nonneg, h.registered, h.sent, h.after, h.record, h.subscribed]
  · obtain rfl := Option.some.inj (found.symm.trans found')
    have registered : ∀ {e}, .registered id e ∈ (s.enqueue r.sub env).log ↔
        .registered id e ∈ s.log := by
      intro e
      simp [log]
    have has : (s.enqueue r.sub env).HasRegistered id ↔ s.HasRegistered id :=
      exists_congr fun e => registered
    refine ⟨?_, ?_, ?_, ?_, ?_, ?_⟩ <;>
      simp only [epoch, stack_enqueue, cfg_enqueue, ids_enqueue, has, registered]
    · exact h.nonneg
    · exact h.registered
    · intro dst' env' same sent
      rw [log] at sent
      rcases List.mem_append.1 sent with sent | sent
      · exact h.sent dst' env' same sent
      · obtain ⟨rfl, rfl⟩ := ServiceEvent.enqueued.inj (List.mem_singleton.1 sent)
        exact ⟨generation, by rw [current, same]⟩
    · intro env' sent
      rw [log] at sent
      rcases List.mem_append.1 sent with sent | sent
      · exact h.after env' sent
      · obtain ⟨rfl, rfl⟩ := ServiceEvent.enqueued.inj (List.mem_singleton.1 sent)
        obtain ⟨e, registered⟩ := own rfl
        exact ⟨e, registered, (h.registered e registered).trans current.ge⟩
    · exact h.record
    · exact h.subscribed

theorem Traced.move {s' : Service} (h : s.Traced id) (m : Move s s') : s'.Traced id := by
  cases m with
  | error => exact ⟨h.nonneg, h.registered, h.sent, h.after, h.record, h.subscribed⟩
  | review st up known kept => exact h.review up known kept
  | loaded | saved | returned => exact h.record_other nofun nofun
  | subscribe hb i now own fresh => exact h.subscribe own fresh
  | send k r env member current generation => exact h.send member current generation
  | channel i sub ch done found =>
    have same : Service.ids { s with subs := s.subs.set i ⟨sub.id, ch, done⟩ } = s.ids :=
      map_set_of_getElem? found rfl
    refine ⟨h.nonneg, h.registered, h.sent, h.after, h.record, ?_⟩
    rw [same]
    exact h.subscribed
  | connect new =>
    refine ⟨h.nonneg, h.registered, h.sent, h.after, h.record, fun k r hr => ?_⟩
    obtain ⟨dst, found, same, own⟩ := h.subscribed k r hr
    exact ⟨dst, (Move.connect new).own found, same, own⟩

/-- A registration comes with an epoch that has been counted up since. -/
theorem Before.move {s' : Service} (h : s.Before b id) (traced : s.Traced id) (m : Move s s') :
    s'.Before b id := by
  refine ⟨h.reached.trans (m.epoch_le id), ?_⟩
  cases m with
  | error | review | channel | connect => exact h.registered
  | loaded | saved | returned =>
    refine (h.record_other ?_).registered
    exact nofun
  | send k r env =>
    intro e registered
    obtain same | ⟨dst, -, same⟩ := s.log_enqueue r.sub env
    · rw [same] at registered
      exact h.registered e registered
    · rw [same] at registered
      exact h.registered e ((List.mem_append.1 registered).resolve_right
        fun h => nomatch List.mem_singleton.1 h)
  | subscribe hb i now own fresh =>
    intro e registered
    rw [log_subscribe] at registered
    rcases List.mem_append.1 registered with old | new
    · exact h.registered e old
    · obtain ⟨rfl, rfl⟩ := ServiceEvent.registered.inj (List.mem_singleton.1 new)
      have reached : b ≤ (s.stack hb.stackID).cluster.epoch := h.reached
      obtain ⟨stale, -⟩ | ⟨⟨-, up⟩ | ⟨-, same, node, known, incarnation⟩, -⟩ :=
        (s.stack hb.stackID).cluster.applyHeartbeat_spec (observation hb now)
      · exact absurd stale fresh
      · omega
      · -- the node was known under this incarnation, so the stream had been registered
        obtain ⟨e, earlier⟩ := traced.record node known incarnation
        have below := h.registered e earlier
        have current : e ≤ (s.stack hb.stackID).cluster.epoch := traced.registered e earlier
        omega

theorem Traced.moves {s' : Service} (h : s.Traced id) (ms : Moves s s') : s'.Traced id := by
  induction ms with
  | refl => exact h
  | tail _ m ih => exact ih.move m

theorem Before.moves {s' : Service} (h : s.Before b id) (traced : s.Traced id) (ms : Moves s s') :
    s'.Before b id := by
  induction ms with
  | refl => exact h
  | tail ms m ih => exact ih.move (traced.moves ms) m

theorem Moves.epoch_le {s' : Service} (ms : Moves s s') (id : StreamID) :
    s.epoch id ≤ s'.epoch id := by
  induction ms with
  | refl => exact le_rfl
  | tail _ m ih => exact ih.trans (m.epoch_le id)

/-- What is in the record stays there. -/
theorem Move.log_subset {s' : Service} (m : Move s s') : s.log ⊆ s'.log := by
  cases m with
  | error | review | channel | connect => exact List.Subset.refl _
  | loaded | saved | returned => exact List.subset_append_left _ _
  | subscribe =>
    rw [log_subscribe]
    exact List.subset_append_left _ _
  | send k r env =>
    obtain same | ⟨dst, -, same⟩ := s.log_enqueue r.sub env
    · rw [same]
      exact List.Subset.refl _
    · rw [same]
      exact List.subset_append_left _ _

theorem Moves.log_subset {s' : Service} (ms : Moves s s') : s.log ⊆ s'.log := by
  induction ms with
  | refl => exact List.Subset.refl _
  | tail _ m ih => exact List.Subset.trans ih m.log_subset

end Moves

end Service

/-! ## Two processes and their services -/

/-- A node that starts again. -/
structure Restart where
  stackID : Bytes
  nodeID : Bytes
  oldIncarnation : ℤ
  newIncarnation : ℤ
  newer : oldIncarnation < newIncarnation

/-- The two processes of one node. -/
inductive Incarnation
  | old
  | new
deriving DecidableEq, Repr

/-- The stream under which the process sends its heartbeats. -/
def Restart.stream (r : Restart) : Incarnation → StreamID
  | .old => ⟨r.stackID, r.nodeID, r.oldIncarnation⟩
  | .new => ⟨r.stackID, r.nodeID, r.newIncarnation⟩

/-- A process: its lease and whether it ever had one, its sequencer, the fences its operations have
taken, and what it has stamped. -/
structure NodeProcess where
  lease : Lease
  leased : Bool
  sequencer : Sequencer
  fences : List (ℤ × ℤ)
  stamps : List Sequencer
deriving DecidableEq, Repr

/-- A process that knows no topology. -/
def NodeProcess.start : NodeProcess := ⟨.new, false, .new, [], []⟩

/-- The watchdogs of all generations, and the node before and after its restart. -/
structure Chain where
  servers : List Server
  old : NodeProcess
  new : NodeProcess

/-- What the watchdogs and the two processes do. -/
inductive ChainAction
  | serve (k : ℕ) (a : ServerAction)
  /-- the process applies an envelope that a service has put into one of its channels; between the
  two, envelopes may be lost, and streams may be opened again -/
  | apply (w : Incarnation) (k : ℕ) (env : TopologyEnvelope) (nowMs : ℤ)
  | revoke (w : Incarnation)
  /-- an operation takes its fence -/
  | snapshot (w : Incarnation) (nowMs : ℤ)
  /-- an operation stamps its entry under the fence it has taken -/
  | stamp (w : Incarnation) (generation epoch : ℤ)

namespace NodeProcess

/-- `Apply` as `Subscriber.Run` calls it: every error of it revokes the lease. -/
def apply (p : NodeProcess) (env : Node.Envelope) (nowMs : ℤ) : NodeProcess :=
  match p.lease.apply env nowMs with
  | .ok lease => { p with lease := lease, leased := true }
  | .error _ => { p with lease := p.lease.revoke }

/-- `SnapshotForWrite`: an operation takes its fence, if the lease is valid. -/
def snapshot (p : NodeProcess) (nowMs : ℤ) : NodeProcess :=
  match p.lease.snapshotForWrite nowMs with
  | some fence => { p with fences := p.fences ++ [fence] }
  | none => p

/-- `Stamp`: an operation takes its sequence. -/
def stamp (p : NodeProcess) (generation epoch : ℤ) : NodeProcess :=
  match p.sequencer.stamp generation epoch with
  | .ok stamped => { p with sequencer := stamped, stamps := p.stamps ++ [stamped] }
  | .error _ => p

theorem snapshot_eq (p : NodeProcess) (nowMs : ℤ) :
    ∃ fences, p.snapshot nowMs = { p with fences := fences } := by
  unfold snapshot
  split <;> exact ⟨_, rfl⟩

theorem stamp_eq (p : NodeProcess) (generation epoch : ℤ) :
    ∃ sequencer stamps, p.stamp generation epoch =
      { p with sequencer := sequencer, stamps := stamps } := by
  unfold stamp
  split <;> exact ⟨_, _, rfl⟩

end NodeProcess

namespace Chain

/-- The process of an incarnation. -/
def process (s : Chain) : Incarnation → NodeProcess
  | .old => s.old
  | .new => s.new

/-- The process of an incarnation is `p` now. -/
def setProcess (s : Chain) (w : Incarnation) (p : NodeProcess) : Chain :=
  match w with
  | .old => { s with old := p }
  | .new => { s with new := p }

/-- New watchdogs, and no process has a lease. -/
def start (configs : List Config) : Chain := ⟨configs.map Server.new, .start, .start⟩

/-- One step of a watchdog or a process. -/
def step (r : Restart) (s : Chain) : ChainAction → Option Chain
  | .serve k a => do
    let server ← s.servers[k]?
    let server' ← server.step a
    return { s with servers := s.servers.set k server' }
  | .apply w k env nowMs => do
    let server ← s.servers[k]?
    if .enqueued (r.stream w) env ∈ server.service.log then
      return s.setProcess w ((s.process w).apply env.lease nowMs)
    else none
  | .revoke w => some (s.setProcess w { s.process w with lease := (s.process w).lease.revoke })
  | .snapshot w nowMs => some (s.setProcess w ((s.process w).snapshot nowMs))
  | .stamp w generation epoch =>
    if (generation, epoch) ∈ (s.process w).fences then
      some (s.setProcess w ((s.process w).stamp generation epoch))
    else none

end Chain

/-- The old process stamps nothing once a heartbeat of the new one is registered, and the first
lease of the new process is from the service that gave the old one its last lease, or a later one.
An envelope that is not accepted gives no lease, and may come from any service. -/
def Orderly (r : Restart) (s : Chain) : ChainAction → Prop
  | .stamp .old _ _ => ∀ server ∈ s.servers, ¬server.service.HasRegistered (r.stream .new)
  | .apply .new _ env nowMs =>
    s.new.leased = false → s.old.leased = true → (s.new.lease.apply env.lease nowMs).isOk = true →
      s.old.lease.generation ≤ env.watchdogGeneration
  | _ => True

/-! ## Windows -/

/-- All windows that a process has to do with: its lease, the fences taken and the stamps.  A fence
without a generation cannot be stamped. -/
structure Windows (P : ℤ → ℤ → Prop) (p : NodeProcess) : Prop where
  unleased : p.leased = false → p.lease.generation = 0
  lease : p.leased = true → P p.lease.generation p.lease.epoch
  fences : ∀ f ∈ p.fences, f.1 ≤ 0 ∨ P f.1 f.2
  stamps : ∀ t ∈ p.stamps, 0 < t.generation ∧ P t.generation t.epoch

section Windows

variable {P Q : ℤ → ℤ → Prop} {p : NodeProcess}

theorem windows_start : Windows P .start := ⟨fun _ => rfl, nofun, nofun, nofun⟩

theorem Windows.mono (h : Windows P p) (weaker : ∀ g e, P g e → Q g e) : Windows Q p :=
  ⟨h.unleased, fun leased => weaker _ _ (h.lease leased),
    fun f hf => (h.fences f hf).imp_right (weaker _ _),
    fun t ht => (h.stamps t ht).imp_right (weaker _ _)⟩

theorem Windows.revoke (h : Windows P p) : Windows P { p with lease := p.lease.revoke } :=
  ⟨h.unleased, h.lease, h.fences, h.stamps⟩

theorem Windows.apply (h : Windows P p) {env : Node.Envelope} {nowMs : ℤ}
    (accepted : ∀ lease, p.lease.apply env nowMs = .ok lease → P lease.generation lease.epoch) :
    Windows P (p.apply env nowMs) := by
  unfold NodeProcess.apply
  split
  · next lease ok => exact ⟨nofun, fun _ => accepted lease ok, h.fences, h.stamps⟩
  · exact h.revoke

theorem Windows.snapshot (h : Windows P p) (nowMs : ℤ) : Windows P (p.snapshot nowMs) := by
  unfold NodeProcess.snapshot
  split
  · next fence taken =>
    refine ⟨h.unleased, h.lease, forall_mem_snoc h.fences ?_, h.stamps⟩
    rw [Lease.eq_of_snapshotForWrite taken]
    cases leased : p.leased with
    | false => exact .inl (h.unleased leased).le
    | true => exact .inr (h.lease leased)
  · exact h

theorem Windows.stamp (h : Windows P p) {generation epoch : ℤ}
    (taken : (generation, epoch) ∈ p.fences) : Windows P (p.stamp generation epoch) := by
  unfold NodeProcess.stamp
  split
  · next stamped ok =>
    obtain ⟨rfl, positive, -⟩ := Sequencer.stamp_ok ok
    refine ⟨h.unleased, h.lease, h.fences, forall_mem_snoc h.stamps ⟨positive, ?_⟩⟩
    exact (h.fences _ taken).resolve_left (not_le.2 positive)
  · exact h

end Windows

/-! ## Runs -/

/-- The windows of the old process: no generation above its lease, and no epoch above that of the
service of the generation. -/
def OldWindow (r : Restart) (servers : List Server) (bound g e : ℤ) : Prop :=
  g ≤ bound ∧ ∀ server ∈ servers, server.service.cfg.generation = g →
    e ≤ server.service.epoch (r.stream .new)

/-- The windows of the new process, once it has a lease: above all stamps of the old one. -/
def NewWindow (leased : Bool) (stamps : List Sequencer) (g e : ℤ) : Prop :=
  leased = true ∧ ∀ t ∈ stamps, t.window < toLex (g, e)

/-- The windows of the two processes do not meet, in every run. -/
structure RestartInv (r : Restart) (generations : List ℤ) (s : Chain) : Prop where
  generations : (s.servers.map fun server => server.service.cfg.generation) = generations
  traced : ∀ server ∈ s.servers, server.service.Traced (r.stream .new)
  old : Windows (OldWindow r s.servers s.old.lease.generation) s.old
  before : ∀ t ∈ s.old.stamps, ∀ server ∈ s.servers,
    server.service.cfg.generation = t.generation → server.service.Before t.epoch (r.stream .new)
  new : Windows (NewWindow s.new.leased s.old.stamps) s.new
  registered : s.new.leased = true →
    ∃ server ∈ s.servers, server.service.HasRegistered (r.stream .new)

section Steps

variable {r : Restart} {generations : List ℤ} {s : Chain}

theorem restartInv_start (r : Restart) (configs : List Config) :
    RestartInv r (configs.map Config.generation) (.start configs) where
  generations := by rw [Chain.start, List.map_map]; rfl
  traced := by
    intro server member
    obtain ⟨cfg, -, rfl⟩ := List.mem_map.1 member
    exact Service.traced_new cfg _
  old := windows_start
  before := nofun
  new := windows_start
  registered := nofun

/-- A service moves on. -/
theorem RestartInv.serve (inv : RestartInv r generations s) {k : ℕ} {server server' : Server}
    (found : s.servers[k]? = some server) (moves : Service.Moves server.service server'.service) :
    RestartInv r generations { s with servers := s.servers.set k server' } := by
  have member := List.mem_of_getElem? found
  have traced := inv.traced server member
  refine ⟨?_, ?_, ?_, ?_, inv.new, ?_⟩
  · rw [← inv.generations]
    exact map_set_of_getElem? found (congrArg Config.generation moves.cfg_eq)
  · exact forall_mem_set inv.traced (traced.moves moves)
  · refine inv.old.mono fun g e below => ⟨below.1, forall_mem_set below.2 fun same => ?_⟩
    rw [moves.cfg_eq] at same
    exact (below.2 server member same).trans (moves.epoch_le _)
  · intro t ht
    refine forall_mem_set (inv.before t ht) fun same => ?_
    rw [moves.cfg_eq] at same
    exact (inv.before t ht server member same).moves traced moves
  · refine fun leased => exists_mem_set found ?_ (inv.registered leased)
    exact fun ⟨e, registered⟩ => ⟨e, moves.log_subset registered⟩

/-- An envelope in a channel of the node carries the generation of its service, and no other service
has that. -/
theorem RestartInv.sent (inv : RestartInv r generations s) (chain : generations.Nodup)
    {w : Incarnation} {server : Server} (member : server ∈ s.servers) {env : TopologyEnvelope}
    (sent : .enqueued (r.stream w) env ∈ server.service.log) :
    ∀ other ∈ s.servers,
      other.service.cfg.generation = env.watchdogGeneration → other = server := by
  intro other hother same
  have same_stack : (r.stream w).stackID = (r.stream .new).stackID := by cases w <;> rfl
  rw [((inv.traced server member).sent _ env same_stack sent).1] at same
  rw [← inv.generations] at chain
  exact List.inj_on_of_nodup_map chain hother member same

/-- The old process applies an envelope. -/
theorem RestartInv.applyOld (inv : RestartInv r generations s) (chain : generations.Nodup)
    {server : Server} (member : server ∈ s.servers) {env : TopologyEnvelope}
    (sent : .enqueued (r.stream .old) env ∈ server.service.log) (nowMs : ℤ) :
    RestartInv r generations { s with old := s.old.apply env.lease nowMs } := by
  have stamps : (s.old.apply env.lease nowMs).stamps = s.old.stamps := by
    unfold NodeProcess.apply
    split <;> rfl
  refine ⟨inv.generations, inv.traced, ?_, by rw [stamps]; exact inv.before, by
    rw [stamps]; exact inv.new, inv.registered⟩
  cases accepted : s.old.lease.apply env.lease nowMs with
  | error err =>
    rw [NodeProcess.apply, accepted]
    exact inv.old.revoke
  | ok lease =>
    obtain ⟨generation, epoch, forward⟩ := Lease.apply_ok accepted
    rw [NodeProcess.apply, accepted]
    refine ⟨nofun, fun _ => ⟨le_rfl, ?_⟩, ?_, ?_⟩
    · intro other hother same
      rw [generation] at same
      obtain rfl := inv.sent chain member sent other hother same
      rw [epoch]
      exact ((inv.traced other member).sent (r.stream .old) env rfl sent).2
    · refine fun f hf => (inv.old.fences f hf).imp_right fun below => ⟨?_, below.2⟩
      exact below.1.trans (by dsimp only; omega)
    · refine fun t ht => (inv.old.stamps t ht).imp_right fun below => ⟨?_, below.2⟩
      exact below.1.trans (by dsimp only; omega)

/-- The new process applies an envelope. -/
theorem RestartInv.applyNew (inv : RestartInv r generations s) {server : Server}
    (member : server ∈ s.servers) {env : TopologyEnvelope}
    (sent : .enqueued (r.stream .new) env ∈ server.service.log) {nowMs : ℤ}
    (first : s.new.leased = false → s.old.leased = true →
      (s.new.lease.apply env.lease nowMs).isOk = true →
        s.old.lease.generation ≤ env.watchdogGeneration) :
    RestartInv r generations { s with new := s.new.apply env.lease nowMs } := by
  have traced := inv.traced server member
  obtain ⟨registration, registered, later⟩ := traced.after env sent
  refine ⟨inv.generations, inv.traced, inv.old, inv.before, ?_, fun _ => ⟨server, member, _,
    registered⟩⟩
  cases accepted : s.new.lease.apply env.lease nowMs with
  | error err =>
    rw [NodeProcess.apply, accepted]
    exact inv.new.revoke
  | ok lease =>
    obtain ⟨generation, epoch, forward⟩ := Lease.apply_ok accepted
    rw [NodeProcess.apply, accepted]
    refine Windows.mono (P := NewWindow true s.old.stamps) ⟨nofun, fun _ => ⟨rfl, fun t ht => ?_⟩,
      fun f hf => (inv.new.fences f hf).imp_right fun above => ⟨rfl, above.2⟩,
      fun t' ht' => (inv.new.stamps t' ht').imp_right fun above => ⟨rfl, above.2⟩⟩ fun _ _ h => h
    obtain ⟨positive, bounded, -⟩ := inv.old.stamps t ht
    rw [Sequencer.window, Prod.Lex.toLex_lt_toLex]
    dsimp only
    rw [generation, epoch]
    cases leased : s.new.leased with
    | true =>
      -- the lease it has is above, and leases do not go back
      have above := (inv.new.lease leased).2 t ht
      rw [Sequencer.window, Prod.Lex.toLex_lt_toLex] at above
      dsimp only at above
      omega
    | false =>
      have oldLeased : s.old.leased = true := by
        by_contra unleased
        have := inv.old.unleased (Bool.eq_false_iff.2 unleased)
        omega
      have later_service := first leased oldLeased (by rw [accepted]; rfl)
      rcases (bounded.trans later_service).lt_or_eq with lower | same
      · exact .inl lower
      · have own := ((traced.sent _ env rfl sent).1.symm.trans same.symm)
        have below := (inv.before t ht server member own).registered _ registered
        exact .inr ⟨same, below.trans_le later⟩

/-- The old process stamps, while the new one is not registered. -/
theorem RestartInv.stampOld (inv : RestartInv r generations s) {generation epoch : ℤ}
    (taken : (generation, epoch) ∈ s.old.fences)
    (alone : ∀ server ∈ s.servers, ¬server.service.HasRegistered (r.stream .new)) :
    RestartInv r generations { s with old := s.old.stamp generation epoch } := by
  have unleased : s.new.leased = false := by
    by_contra leased
    obtain ⟨server, member, registered⟩ := inv.registered (by simpa using leased)
    exact alone server member registered
  have old := inv.old.stamp taken
  have lease : (s.old.stamp generation epoch).lease = s.old.lease := by
    obtain ⟨sequencer, stamps, same⟩ := s.old.stamp_eq generation epoch
    rw [same]
  refine ⟨inv.generations, inv.traced, by rw [lease]; exact old, fun t ht server member same => ?_,
    ?_, inv.registered⟩
  · refine ⟨(old.stamps t ht).2.2 server member same, fun e registered => ?_⟩
    exact absurd ⟨e, registered⟩ (alone server member)
  · -- the new process has nothing yet that could be above or below
    refine inv.new.mono fun g e above => ?_
    rw [unleased] at above
    exact absurd above.1 Bool.false_ne_true

theorem RestartInv.step {u : Chain} {a : ChainAction} (inv : RestartInv r generations s)
    (chain : generations.Nodup) (ok : Orderly r s a) (enabled : s.step r a = some u) :
    RestartInv r generations u := by
  cases a with
  | serve k a =>
    obtain ⟨server, found, enabled⟩ := Option.bind_eq_some_iff.1 enabled
    obtain ⟨server', moved, enabled⟩ := Option.bind_eq_some_iff.1 enabled
    cases enabled
    exact inv.serve found (Server.step_moves moved)
  | apply w k env nowMs =>
    obtain ⟨server, found, enabled⟩ := Option.bind_eq_some_iff.1 enabled
    split_ifs at enabled with sent
    cases enabled
    have member := List.mem_of_getElem? found
    cases w with
    | old => exact inv.applyOld chain member sent nowMs
    | new => exact inv.applyNew member sent ok
  | revoke w =>
    cases enabled
    cases w with
    | old =>
      exact ⟨inv.generations, inv.traced, inv.old.revoke, inv.before, inv.new, inv.registered⟩
    | new =>
      exact ⟨inv.generations, inv.traced, inv.old, inv.before, inv.new.revoke, inv.registered⟩
  | snapshot w nowMs =>
    cases enabled
    cases w with
    | old =>
      have windows := inv.old.snapshot nowMs
      obtain ⟨fences, same⟩ := s.old.snapshot_eq nowMs
      rw [same] at windows
      rw [Chain.process, Chain.setProcess, same]
      exact ⟨inv.generations, inv.traced, windows, inv.before, inv.new, inv.registered⟩
    | new =>
      have windows := inv.new.snapshot nowMs
      obtain ⟨fences, same⟩ := s.new.snapshot_eq nowMs
      rw [same] at windows
      rw [Chain.process, Chain.setProcess, same]
      exact ⟨inv.generations, inv.traced, inv.old, inv.before, windows, inv.registered⟩
  | stamp w generation epoch =>
    simp only [Chain.step] at enabled
    split_ifs at enabled with taken
    cases enabled
    cases w with
    | old => exact inv.stampOld taken ok
    | new =>
      have windows := inv.new.stamp taken
      obtain ⟨sequencer, stamps, same⟩ := s.new.stamp_eq generation epoch
      rw [same] at windows
      rw [Chain.process, Chain.setProcess, same]
      exact ⟨inv.generations, inv.traced, inv.old, inv.before, windows, inv.registered⟩

end Steps

/-- Services with increasing generations, a node that starts again, and any run of heartbeats of any
nodes, pod observations, ticks, failing stores and lost envelopes in which the old process stamps
nothing once the new one is registered, and the new one's first lease is not from an earlier service
than the old one's last: all that the new process stamps is above all that the old one has. -/
theorem restart_wins_race {r : Restart} {configs : List Config}
    (chain : configs.Pairwise fun a b => a.generation < b.generation) {as : List ChainAction}
    {s : Chain} (run : Run (Chain.step r) (Orderly r) (.start configs) as s) :
    ∀ t ∈ s.old.stamps, ∀ t' ∈ s.new.stamps, t.triple < t'.triple := by
  have distinct : (configs.map Config.generation).Nodup :=
    List.pairwise_map.2 (chain.imp fun lt => ne_of_lt lt)
  have inv : RestartInv r (configs.map Config.generation) s :=
    run.invariant _ (restartInv_start r configs) fun s a u inv ok enabled =>
      inv.step distinct ok enabled
  intro t ht t' ht'
  have above := (inv.new.stamps t' ht').2.2 t ht
  rw [Sequencer.window, Prod.Lex.toLex_lt_toLex] at above
  rw [Sequencer.triple, Sequencer.triple, Prod.Lex.toLex_lt_toLex]
  exact above.imp_right fun same => ⟨same.1, Prod.Lex.toLex_lt_toLex.2 (.inl same.2)⟩

instance (r : Restart) (s : Chain) : DecidablePred (Orderly r s)
  | .stamp .old _ _ | .apply .new _ _ _ => by
    unfold Orderly
    infer_instance
  | .stamp .new _ _ | .apply .old _ _ _ | .serve _ _ | .revoke _ | .snapshot _ _ => isTrue trivial

/-- A node of incarnation 1 that starts again as incarnation 2. -/
def secondStart : Restart := ⟨[97], [110], 1, 2, by decide⟩

/-- The heartbeat of one of the two processes, and the envelope it is answered with. -/
def startHeartbeat (incarnation : ℤ) : Heartbeat :=
  ⟨[97], [110], [112], [105], incarnation, 0, .ready, []⟩

/-- An envelope for the runs below. -/
def startEnvelope (incarnation epoch : ℤ) : TopologyEnvelope :=
  ⟨[97], [⟨[110], [112], [105], incarnation, .ready, 0⟩], epoch, .event, 30000, [119], 1, .primary⟩

/-- Both processes register, take a lease and stamp. -/
def secondStartRun : List ChainAction :=
  [.serve 0 (.watch (startHeartbeat 1) ⟨.ok 0, 0, ⟨0, some "not called"⟩, ⟨0, none⟩⟩),
    .apply .old 0 (startEnvelope 1 1) 0, .snapshot .old 1, .stamp .old 1 1, .stamp .old 1 1,
    .serve 0 (.watch (startHeartbeat 2) ⟨.ok 0, 0, ⟨0, some "not called"⟩, ⟨0, none⟩⟩),
    .apply .new 0 (startEnvelope 2 2) 2, .snapshot .new 3, .stamp .new 1 2]

theorem restart_wins_race_one_service :
    ∃ s, Run (Chain.step secondStart) (Orderly secondStart)
        (.start [⟨20000000000, 30000000000, 30000000000, [119], 1, .primary, true⟩])
        secondStartRun s ∧
      s.old.stamps = [⟨1, 1, 1⟩, ⟨1, 1, 2⟩] ∧ s.new.stamps = [⟨1, 2, 1⟩] ∧
      ∀ t ∈ s.old.stamps, ∀ t' ∈ s.new.stamps, t.triple < t'.triple := by
  obtain ⟨s, run, old, new⟩ := Run.exists_of_exec (Chain.step secondStart) (Orderly secondStart)
    (.start [⟨20000000000, 30000000000, 30000000000, [119], 1, .primary, true⟩]) secondStartRun
    (fun s => s.old.stamps = [⟨1, 1, 1⟩, ⟨1, 1, 2⟩] ∧ s.new.stamps = [⟨1, 2, 1⟩])
    (by decide +kernel)
  exact ⟨s, run, old, new, restart_wins_race (List.pairwise_singleton _ _) run⟩

end OlricStack.Topology
