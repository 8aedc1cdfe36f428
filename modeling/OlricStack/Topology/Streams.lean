import OlricStack.Topology.Leadership
import OlricStack.Topology.Restart

/-!
# Streams that are not stale

Generation and epoch of the envelopes that a service makes for a stack only go up, and they get into
a channel in the order they are made.  So a node that reads one stream after the other never finds
an envelope stale (`reader_never_stale`).  The envelopes of a primary in one channel are in order as
well (`healthy_stream_never_stale`), but for one case: a demotion that comes to a stack when the
service has already been made primary again makes a standby envelope with the role of a primary and
epoch 0 (`standby_envelope_of_a_primary`).
-/

namespace OlricStack.Topology

open Transition Growth Watchdog
open OlricStack.Node (WatchdogRole Lease LeaseError)

/-! ## Windows -/

/-- The pair by which envelopes are compared. -/
def TopologyEnvelope.window (env : TopologyEnvelope) : ℤ ×ₗ ℤ :=
  toLex (env.watchdogGeneration, env.epoch)

/-- The watchdog that has sent the envelope took itself for the primary. -/
def TopologyEnvelope.IsPrimary (env : TopologyEnvelope) : Prop := env.watchdogRole = .primary

/-- There is a time at which a node accepts the envelope. -/
def TopologyEnvelope.Lasting (env : TopologyEnvelope) : Prop :=
  env.watchdogRole = .primary ∧ 0 < env.validUntilUnixMs

/-- The window of the envelopes that the service makes for the stack now. -/
def Service.window (s : Service) (id : Bytes) : ℤ ×ₗ ℤ :=
  toLex (s.cfg.generation, (s.stack id).cluster.epoch)

namespace Service

theorem window_congr {s s' : Service} (cfg : s'.cfg = s.cfg) {id : Bytes}
    (cluster : (s'.stack id).cluster = (s.stack id).cluster) : s'.window id = s.window id := by
  rw [window, window, cfg, cluster]

theorem window_le_of_act {fresh : ClusterState → ℤ → Prop} {s s' : Service} (a : Act fresh s s')
    (id : Bytes) : s.window id ≤ s'.window id := by
  rw [window, window, a.move.cfg_eq, Prod.Lex.toLex_le_toLex]
  exact .inr ⟨rfl, a.move.epoch_le ⟨id, [], 0⟩⟩

theorem window_le_lead (s : Service) {role : WatchdogRole} {generation : ℤ}
    (up : generation ≤ 0 ∨ s.cfg.generation ≤ generation) (id : Bytes) :
    s.window id ≤ (s.lead role generation).window id := by
  rw [window, window, Prod.Lex.toLex_le_toLex]
  unfold lead
  dsimp only
  split_ifs with set
  · have le : s.cfg.generation ≤ generation := up.resolve_left (not_le.2 set)
    exact le.lt_or_eq.imp_right fun same => ⟨same, le_rfl⟩
  · exact .inr ⟨rfl, le_rfl⟩

theorem window_post (s : Service) (p : Post) (id : Bytes) : (s.post p).window id = s.window id :=
  window_congr (cfg_post s p) (cluster_post s p id)

theorem window_closeSubscriber (s : Service) (i : ℕ) (id : Bytes) :
    (s.closeSubscriber i).window id = s.window id :=
  window_congr (s.cfg_closeSubscriber i)
    (congrArg StackState.cluster (s.stack_closeSubscriber i id))

end Service

/-- The two differ at most in what is on the wire. -/
structure Reader.Alike (r r' : Reader) : Prop where
  stackID : r'.stackID = r.stackID
  stream : r'.stream = r.stream
  lease : r'.lease = r.lease
  errors : r'.errors = r.errors

theorem Reader.alike_of_eq {r r' : Reader} (same : r' = r) : r.Alike r' := by
  subst same
  exact ⟨rfl, rfl, rfl, rfl⟩

theorem Reader.alike_send (r : Reader) (i : ℕ) (env : TopologyEnvelope) :
    r.Alike (r.send i env) := by
  unfold send
  split_ifs <;> exact ⟨rfl, rfl, rfl, rfl⟩

namespace LiveService

variable {s u : LiveService} {a : LiveAction}

/-- A `SetLeadership` call does not lower the generation.  The node's clock is not before 1970,
since standby envelopes are valid until then. -/
def Advancing (s : LiveService) : LiveAction → Prop
  | .setLeadership _ generation => generation ≤ 0 ∨ s.service.cfg.generation ≤ generation
  | .apply nowMs => 0 ≤ nowMs
  | _ => True

instance (s : LiveService) : (a : LiveAction) → Decidable (Advancing s a)
  | .setLeadership _ _ => @instDecidableOr _ _ (Int.decLe _ _) (Int.decLe _ _)
  | .apply _ => Int.decLe _ _
  | .demote _ | .enter _ | .next | .unlock | .close _ | .watch _ | .register .. | .refuse .. |
    .query _ | .getTopology .. | .receiveHeartbeat .. | .observePods .. | .unregister _ |
    .reaperCheck | .bookwormCheck | .reaper .. | .bookworm _ | .receiveEnvelope _ | .hangUp =>
    .isTrue trivial

/-- And a demotion does not find that the service is primary again when it comes to a stack. -/
def DemotesStandby (s : LiveService) : LiveAction → Prop
  | .enter _ => s.service.isPrimary = false
  | a => Advancing s a

instance (s : LiveService) : (a : LiveAction) → Decidable (DemotesStandby s a)
  | .enter _ => instDecidableEqBool _ _
  | .setLeadership _ _ => @instDecidableOr _ _ (Int.decLe _ _) (Int.decLe _ _)
  | .apply _ => Int.decLe _ _
  | .demote _ | .next | .unlock | .close _ | .watch _ | .register .. | .refuse .. |
    .query _ | .getTopology .. | .receiveHeartbeat .. | .observePods .. | .unregister _ |
    .reaperCheck | .bookwormCheck | .reaper .. | .bookworm _ | .receiveEnvelope _ | .hangUp =>
    .isTrue trivial

theorem DemotesStandby.advancing (h : DemotesStandby s a) : Advancing s a := by
  cases a with
  | enter => trivial
  | _ => exact h

/-! ## Channels -/

/-- The envelopes that satisfy `p` have been put into every channel in order. -/
def Ordered (p : TopologyEnvelope → Prop) (s : LiveService) : Prop :=
  ∀ (i : ℕ) dst, s.service.ids[i]? = some dst →
    Rising TopologyEnvelope.window p (s.service.window dst.stackID) (s.history i)

variable {p : TopologyEnvelope → Prop}

theorem Ordered.grow (h : Ordered p s) (ids : u.service.ids = s.service.ids)
    (up : ∀ id, s.service.window id ≤ u.service.window id)
    (grows : ∀ i, Grows (fun env => ¬ p env) (s.history i) (u.history i)) : Ordered p u := by
  intro i dst found
  rw [ids] at found
  exact ((h i dst found).grow (grows i)).mono (up _)

/-- Nothing has been put into the channel of a subscriber that does not exist. -/
theorem history_eq_nil (kept : s.Kept) {i : ℕ} (missing : s.service.ids[i]? = none) :
    s.history i = [] := by
  have channel : s.service.channel i = [] := by
    rw [Service.ids, List.getElem?_map, Option.map_eq_none_iff] at missing
    rw [Service.channel, missing]
    rfl
  rw [history, channel, List.append_nil, List.filterMap_eq_nil_iff]
  intro t member
  obtain ⟨dst, found⟩ := kept.taken t member
  refine if_neg fun same => ?_
  rw [same, missing] at found
  cases found

theorem Ordered.act (h : Ordered p s) (kept : s.Kept) {fresh : ClusterState → ℤ → Prop}
    {service : Service} (act : Service.Act fresh s.service service) :
    Ordered p { s with service := service } := by
  intro i dst found
  have up := Service.window_le_of_act act dst.stackID
  cases old : s.service.ids[i]? with
  | none =>
    rcases act.channel kept.owned i with same | ⟨_, _, _, found', -⟩
    · have empty : history { s with service := service } i = [] :=
        (congrArg _ same).trans (history_eq_nil kept old)
      rw [empty]
      exact rising_nil
    · rw [old] at found'
      cases found'
  | some dst' =>
    obtain rfl : dst' = dst := Option.some.inj ((act.move.own old).symm.trans found)
    rcases act.channel kept.owned i with same | ⟨dst, reason, now, found', same⟩
    · have eq : history { s with service := service } i = s.history i := congrArg _ same
      rw [eq]
      exact (h i dst' old).mono up
    · obtain rfl : dst = dst' := Option.some.inj (found'.symm.trans old)
      have eq : history { s with service := service } i =
          s.history i ++ [s.service.envelopeFor dst.stackID reason now] := by
        unfold history
        rw [List.append_assoc, ← same]
      rw [eq]
      exact ((h i dst old).snoc (fun _ => le_rfl) fun _ => le_rfl).mono up

theorem Ordered.take (h : Ordered p s) (j : ℕ) {reader : Reader} {holder : Option Holder} :
    Ordered p { s.take j with reader := reader, holder := holder } := by
  have history := s.history_take j
  obtain ⟨subs, taken, same, ids, -⟩ := s.take_eq j
  rw [same] at history ⊢
  exact h.grow ids (fun _ => le_rfl) fun i => .of_eq (history i)

theorem Ordered.turn (h : Ordered p s) (kept : s.Kept) (advancing : Advancing s a)
    (unposted : ∀ q ∈ s.posts, ¬ p q.envelope) (t : Turn s a u) : Ordered p u := by
  cases t with
  | wait | lock | demote | enter | unlock | refuse | answer | apply | hangUp => exact h
  | lead role generation =>
    exact h.grow rfl (s.service.window_le_lead advancing) fun _ => .of_eq rfl
  | register hb =>
    have connects : Service.Act (fun _ _ => True) s.service _ := .connect hb.stream
    exact h.act kept connects
  | part q rest left held =>
    have acts := Service.acts_runPart (kept.ownParts held q (.head rest))
    exact kept.acts h (fun _ _ kept ordered act => ordered.act kept act) acts
  | drain q => exact h.take q.registration.sub
  | post q posts rest pending held =>
    have belongs := kept.postsBelong held q (.head posts)
    have member := mem_posts held (.head posts)
    refine h.grow (Service.ids_post s.service q) (fun id => ?_) fun i => history_grows ?_
    · exact le_of_eq (s.service.window_post q id).symm
    · exact (Service.grows_post belongs i).mono fun env same => same ▸ unposted q member
  | close i =>
    refine h.grow (s.service.ids_closeSubscriber i) (fun id => ?_) fun j => history_grows ?_
    · exact le_of_eq (s.service.window_closeSubscriber i id).symm
    · exact .of_eq (s.service.channel_closeSubscriber i j)
  | receive i => exact h.take i

/-! ## The node -/

/-- What the node has yet to receive on its stream. -/
def queue (s : LiveService) : List TopologyEnvelope :=
  s.reader.wire ++ s.reader.stream.elim [] s.service.channel

/-- What comes to the node is in order, and not below what it has accepted. -/
structure Following (s : LiveService) : Prop where
  stream : ∀ i, s.reader.stream = some i →
    ∃ dst, s.service.ids[i]? = some dst ∧ dst.stackID = s.reader.stackID
  rising : Rising TopologyEnvelope.window TopologyEnvelope.Lasting
    (s.service.window s.reader.stackID) s.queue
  above : ∀ env ∈ s.queue, env.Lasting → s.reader.lease.window ≤ env.window
  below : s.reader.lease.window ≤ s.service.window s.reader.stackID
  fresh : ∀ err ∈ s.reader.errors, err ≠ .staleWatchdogGeneration ∧ err ≠ .staleTopologyEpoch

/-- The service moves on, and the node gets less, or something that it does not accept. -/
theorem Following.move (h : s.Following) (reader : s.reader.Alike u.reader)
    (keeps : s.service.KeepsIDs u.service)
    (up : ∀ id, s.service.window id ≤ u.service.window id)
    (queue : u.queue.Sublist s.queue ∨ Grows (fun env => ¬ env.Lasting) s.queue u.queue) :
    u.Following := by
  refine ⟨fun i opened => ?_, ?_, fun env member lasting => ?_, ?_, ?_⟩
  · rw [reader.stream] at opened
    obtain ⟨dst, found, same⟩ := h.stream i opened
    exact ⟨dst, keeps i dst found, same.trans reader.stackID.symm⟩
  · rw [reader.stackID]
    exact (queue.elim h.rising.sublist h.rising.grow).mono (up _)
  · rw [reader.lease]
    rcases queue with less | ⟨new, same, dropped⟩
    · exact h.above env (less.subset member) lasting
    · rw [same] at member
      exact (List.mem_append.1 member).elim (fun old => h.above env old lasting)
        fun last => absurd lasting (dropped env last)
  · rw [reader.lease, reader.stackID]
    exact h.below.trans (up _)
  · rw [reader.errors]
    exact h.fresh

/-- A change of the channels alone. -/
theorem queue_grows {P : TopologyEnvelope → Prop} {service : Service}
    (grows : ∀ i, Grows P (s.service.channel i) (service.channel i)) {w : Waiting}
    {holder : Option Holder} :
    Grows P s.queue (queue { s with service := service, waiting := w, holder := holder }) := by
  refine Grows.append_left ?_ _
  dsimp only
  cases s.reader.stream with
  | none => exact .of_eq rfl
  | some i => exact grows i

theorem Following.act (h : s.Following) (kept : s.Kept) {fresh : ClusterState → ℤ → Prop}
    {service : Service} (act : Service.Act fresh s.service service) :
    Following { s with service := service } := by
  have keeps : s.service.KeepsIDs service := fun _ _ => act.move.own
  have up := Service.window_le_of_act act
  cases opened : s.reader.stream with
  | none =>
    refine h.move (Reader.alike_of_eq rfl) keeps up (.inl ?_)
    unfold queue
    rw [opened]
    exact .refl _
  | some i =>
    obtain ⟨dst, found, stack⟩ := h.stream i opened
    rcases act.channel kept.owned i with same | ⟨dst', reason, now, found', same⟩
    · refine h.move (Reader.alike_of_eq rfl) keeps up (.inl ?_)
      unfold queue
      rw [opened, Option.elim_some, Option.elim_some, same]
    · obtain rfl : dst' = dst := Option.some.inj (found'.symm.trans found)
      rw [stack] at same
      -- the new envelope stands at the window of the stack, so it is above everything before
      have grown : queue { s with service := service } =
          s.queue ++ [s.service.envelopeFor s.reader.stackID reason now] := by
        unfold queue
        rw [opened, Option.elim_some, Option.elim_some, same, List.append_assoc]
      refine ⟨fun j opened' => ?_, ?_, ?_, h.below.trans (up _), h.fresh⟩
      · obtain ⟨dst, found, stack⟩ := h.stream j opened'
        exact ⟨dst, keeps j dst found, stack⟩
      · rw [grown]
        exact (h.rising.snoc (fun _ => le_rfl) fun _ => le_rfl).mono (up _)
      · rw [grown]
        exact forall_mem_snoc h.above fun _ => h.below

/-- A new stream on which there is nothing that the node accepts. -/
theorem Following.connect (h : s.Following) {service : Service}
    (up : s.service.window s.reader.stackID ≤ service.window s.reader.stackID)
    {stream : Option ℕ} {wire : List TopologyEnvelope}
    (own : ∀ i, stream = some i →
      ∃ dst, service.ids[i]? = some dst ∧ dst.stackID = s.reader.stackID)
    (empty : ∀ i, stream = some i → service.channel i = [])
    (dropped : ∀ env ∈ wire, ¬ env.Lasting) {w : Waiting} {holder : Option Holder} :
    Following { s with
      service := service
      reader := s.reader.connect stream wire
      waiting := w
      holder := holder } := by
  have all : queue { s with
      service := service
      reader := s.reader.connect stream wire
      waiting := w
      holder := holder } = wire := by
    unfold queue Reader.connect
    dsimp only
    cases stream with
    | none => exact List.append_nil wire
    | some i => rw [Option.elim_some, empty i rfl, List.append_nil]
  refine ⟨own, ?_, ?_, h.below.trans up, h.fresh⟩
  · rw [all]
    exact rising_nil.grow ⟨wire, rfl, dropped⟩
  · rw [all]
    exact fun env member lasting => absurd lasting (dropped env member)

theorem not_lasting_standbyEnvelope (s : Service) (id : Bytes) :
    ¬ (s.standbyEnvelope id).Lasting := fun h => lt_irrefl 0 h.2

/-- An envelope is taken from a channel, by a demotion or by a `Watch` call. -/
theorem Following.take (h : s.Following) (j : ℕ) {reader : Reader} {holder : Option Holder}
    (alike : s.reader.Alike reader)
    (less : (queue { s.take j with reader := reader, holder := holder }).Sublist s.queue) :
    Following { s.take j with reader := reader, holder := holder } := by
  obtain ⟨subs, taken, same, ids, -⟩ := s.take_eq j
  rw [same] at less ⊢
  refine h.move alike (fun i dst found => ?_) (fun _ => le_rfl) (.inl less)
  rwa [Service.ids, ids]

theorem queue_take_sublist (s : LiveService) (j : ℕ) :
    (s.reader.wire ++ s.reader.stream.elim [] (s.take j).service.channel).Sublist s.queue := by
  refine List.Sublist.append (.refl _) ?_
  cases s.reader.stream with
  | none => exact .refl _
  | some i => exact s.channel_take_sublist j i

theorem Following.drain (h : s.Following) (j : ℕ) {holder : Option Holder} :
    Following { s.take j with holder := holder } := by
  refine h.take j (Reader.alike_of_eq (s.reader_take j)) ?_
  rw [reader_take]
  exact s.queue_take_sublist j

/-- What is taken from the channel of the node's stream is sent to the node. -/
theorem Following.receive (h : s.Following) {j : ℕ} {env : TopologyEnvelope}
    {rest : List TopologyEnvelope} (ready : s.service.channel j = env :: rest)
    {holder : Option Holder} :
    Following { s.take j with reader := s.reader.send j env, holder := holder } := by
  refine h.take j (s.reader.alike_send j env) ?_
  by_cases own : s.reader.stream = some j
  · unfold queue Reader.send
    rw [if_pos own]
    dsimp only
    rw [own, Option.elim_some, Option.elim_some, channel_take, if_pos rfl, ready,
      List.append_assoc]
    exact .refl _
  · unfold Reader.send
    rw [if_neg own]
    exact s.queue_take_sublist j

/-- The tracker finds nothing stale that is not below what it has accepted. -/
theorem lease_apply_cases (l : Lease) (env : TopologyEnvelope) {nowMs : ℤ} (clock : 0 ≤ nowMs)
    (above : env.Lasting → l.window ≤ env.window) :
    (∃ l', l.apply env.lease nowMs = .ok l' ∧ env.Lasting ∧ l'.window = env.window) ∨
      ∃ err, l.apply env.lease nowMs = .error err ∧
        err ≠ .staleWatchdogGeneration ∧ err ≠ .staleTopologyEpoch := by
  unfold Lease.apply TopologyEnvelope.lease
  dsimp only
  split_ifs with role expired older newer stale
  · exact .inr ⟨_, rfl, by simp, by simp⟩
  · exact .inr ⟨_, rfl, by simp, by simp⟩
  all_goals
    have lasting : env.Lasting := ⟨not_not.1 role, by omega⟩
    have le := above lasting
    rw [Lease.window, TopologyEnvelope.window, Prod.Lex.toLex_le_toLex] at le
    dsimp only at le
  · omega
  · exact .inl ⟨_, rfl, lasting, rfl⟩
  · omega
  · have same : l.generation = env.watchdogGeneration := by omega
    exact .inl ⟨_, rfl, lasting, by rw [Lease.window, TopologyEnvelope.window, same]⟩

theorem Following.apply (h : s.Following) {env : TopologyEnvelope} {wire : List TopologyEnvelope}
    (ready : s.reader.wire = env :: wire) {nowMs : ℤ} (clock : 0 ≤ nowMs) :
    Following { s with reader := { s.reader with wire := wire }.apply env nowMs } := by
  have queued : s.queue = env :: (wire ++ s.reader.stream.elim [] s.service.channel) := by
    rw [queue, ready, List.cons_append]
  have rising := h.rising
  have above := h.above
  rw [queued] at rising above
  unfold Reader.apply
  rcases lease_apply_cases s.reader.lease env clock (above env (.head _)) with
    ⟨lease, accepted, lasting, same⟩ | ⟨err, rejected, notStale⟩
  · dsimp only
    rw [accepted]
    refine ⟨h.stream, rising.sublist (List.sublist_cons_self _ _), ?_, ?_, h.fresh⟩
    · dsimp only
      rw [same]
      exact rising.head_le lasting
    · dsimp only
      rw [same]
      exact rising.bounded env (.head _) lasting
  · dsimp only
    rw [rejected]
    exact ⟨h.stream, rising.sublist (List.sublist_cons_self _ _),
      fun e member => above e (.tail _ member), h.below, forall_mem_snoc h.fresh notStale⟩

theorem Following.turn (h : s.Following) (kept : s.Kept) (advancing : Advancing s a)
    (unposted : ∀ q ∈ s.posts, ¬ q.envelope.Lasting) (t : Turn s a u) : u.Following := by
  have same : s.service.KeepsIDs s.service := fun _ _ found => found
  have alike := Reader.alike_of_eq (rfl : s.reader = s.reader)
  cases t with
  | wait | lock | demote | enter | unlock | answer =>
    exact h.move alike same (fun _ => le_rfl) (.inl (.refl _))
  | lead role generation =>
    exact h.move alike same (s.service.window_le_lead advancing) (.inl (.refl _))
  | register hb mine io w free stack =>
    cases mine with
    | true =>
      refine h.connect ?_ (fun i new => ?_) (fun i new => ?_) (List.forall_mem_nil _)
      · exact le_rfl
      · cases new
        exact ⟨hb.stream, s.service.ids_connect hb.stream, stack rfl⟩
      · cases new
        rw [Service.channel_connect, Service.channel, List.getElem?_eq_none le_rfl]
        rfl
    | false =>
      exact h.move alike (fun _ _ => (Service.Move.connect hb.stream).own) (fun _ => le_rfl)
        (.inr (queue_grows fun i => .of_eq (s.service.channel_connect hb.stream i)))
  | part q rest left held =>
    have acts := Service.acts_runPart (kept.ownParts held q (.head rest))
    have moved := kept.acts h (fun _ _ kept following act => following.act kept act) acts
    exact ⟨moved.stream, moved.rising, moved.above, moved.below, moved.fresh⟩
  | drain q => exact h.drain q.registration.sub
  | post q posts rest pending held =>
    have belongs := kept.postsBelong held q (.head posts)
    have member := mem_posts held (.head posts)
    refine h.move alike (fun _ _ found => ?_) (fun id => ?_) (.inr (queue_grows fun i => ?_))
    · rwa [Service.ids_post]
    · exact le_of_eq (s.service.window_post q id).symm
    · exact (Service.grows_post belongs i).mono fun env same => same ▸ unposted q member
  | close i =>
    refine h.move alike (fun _ _ found => ?_) (fun id => ?_) (.inr (queue_grows fun j => ?_))
    · rwa [Service.ids_closeSubscriber]
    · exact le_of_eq (s.service.window_closeSubscriber i id).symm
    · exact .of_eq (s.service.channel_closeSubscriber i j)
  | refuse hb mine w =>
    cases mine with
    | true =>
      refine h.connect le_rfl (by simp) (by simp) ?_
      simp [not_lasting_standbyEnvelope]
    | false => exact h.move alike same (fun _ => le_rfl) (.inl (.refl _))
  | receive i env rest ready => exact h.receive ready
  | apply env wire nowMs ready => exact h.apply ready advancing
  | hangUp => exact h.connect le_rfl (by simp) (by simp) (List.forall_mem_nil _)

/-! ## Runs -/

theorem following_new {cfg : Config} (generation : 0 < cfg.generation) (stackID : Bytes) :
    (new cfg stackID).Following where
  stream i opened := by cases opened
  rising := rising_nil
  above := List.forall_mem_nil _
  below := Prod.Lex.toLex_le_toLex.2 (.inl generation)
  fresh := List.forall_mem_nil _

theorem generation_withDefaults (c : Config) {nowUnixNano : ℤ} (clock : 0 < nowUnixNano) :
    0 < (c.withDefaults nowUnixNano).generation := by
  unfold Config.withDefaults
  dsimp only
  split_ifs with missing
  · exact clock
  · exact not_le.1 missing

/-- A demotion's envelopes do not last. -/
theorem unposted_turn (h : ∀ q ∈ s.posts, ¬ q.envelope.Lasting) (t : Turn s a u) :
    ∀ q ∈ u.posts, ¬ q.envelope.Lasting := by
  intro q member
  rcases t.posts member with old | ⟨-, made⟩
  · exact h q old
  · rw [made]
    exact not_lasting_standbyEnvelope _ _

end LiveService

open LiveService

/-- A node that reads one stream of the service after the other finds nothing stale, as long as the
generation of the service does not go down. -/
theorem reader_never_stale {c : Config} {nowUnixNano : ℤ} (clock : 0 < nowUnixNano)
    {stackID : Bytes} {as : List LiveAction} {s : LiveService}
    (r : Run step Advancing (.new (c.withDefaults nowUnixNano) stackID) as s) :
    ∀ err ∈ s.reader.errors, err ≠ .staleWatchdogGeneration ∧ err ≠ .staleTopologyEpoch := by
  refine (r.invariant (fun v => v.Kept ∧ (∀ q ∈ v.posts, ¬ q.envelope.Lasting) ∧ v.Following)
    ⟨kept_new _ _, List.forall_mem_nil _, following_new (generation_withDefaults c clock) stackID⟩
    ?_).2.2.fresh
  rintro v a w ⟨kept, unposted, following⟩ advancing enabled
  have t := step_turn enabled
  exact ⟨kept.turn t, unposted_turn unposted t, following.turn kept advancing unposted t⟩

/-- Take any run of a service in which `SetLeadership` calls do not lower the generation, and no
demotion comes to a stack when the service is primary again.  The envelopes of a primary that were
put into one channel have rising pairs of generation and epoch, and a node that reads one stream of
the service after the other finds nothing stale. -/
theorem healthy_stream_never_stale {c : Config} {nowUnixNano : ℤ} (clock : 0 < nowUnixNano)
    {stackID : Bytes} {as : List LiveAction} {s : LiveService}
    (r : Run step DemotesStandby (.new (c.withDefaults nowUnixNano) stackID) as s) :
    (∀ i, (s.history i).Pairwise fun env env' =>
      env.watchdogRole = .primary → env'.watchdogRole = .primary → env.window ≤ env'.window) ∧
    ∀ err ∈ s.reader.errors, err ≠ .staleWatchdogGeneration ∧ err ≠ .staleTopologyEpoch := by
  refine ⟨fun i => ?_, reader_never_stale clock (r.mono fun _ _ => DemotesStandby.advancing)⟩
  have ordered := r.invariant (fun v => v.Kept ∧ (∀ q ∈ v.posts, ¬ q.envelope.IsPrimary) ∧
    Ordered TopologyEnvelope.IsPrimary v) ⟨kept_new _ _, List.forall_mem_nil _, ?_⟩ ?_
  · cases found : s.service.ids[i]? with
    | none =>
      rw [history_eq_nil ordered.1 found]
      exact .nil
    | some dst => exact (ordered.2.2 i dst found).ordered
  · intro j dst found
    cases found
  · rintro v a w ⟨kept, unposted, ordered⟩ demotes enabled
    have t := step_turn enabled
    refine ⟨kept.turn t, fun q member => ?_, ordered.turn kept demotes.advancing unposted t⟩
    rcases t.posts member with old | ⟨⟨order, rfl⟩, made⟩
    · exact unposted q old
    · have standby : v.service.cfg.role ≠ .primary := of_decide_eq_false demotes
      rw [made]
      exact standby

/-- A node of stack 97 registers and applies what it is sent.  The service is demoted and made
primary again with a higher generation, and the node comes back. -/
def comeBack : List LiveAction :=
  [.watch (beatOf 1), .register 0 true (beatAt 0), .next, .next, .next, .unlock,
    .receiveEnvelope 0, .apply 1000, .setLeadership .standby 2, .demote [[97]],
    .enter [⟨[1], 0⟩], .next, .next, .unlock, .receiveEnvelope 0, .apply 2000, .close 0,
    .setLeadership .primary 3, .watch (beatOf 1), .register 0 true (beatAt 3), .next, .next, .next,
    .unlock, .receiveEnvelope 1, .apply 4000]

theorem healthy_stream_never_stale_come_back :
    ∃ s, Run step DemotesStandby (.new (standardConfig.withDefaults 1) [97]) comeBack s ∧
      s.reader.lease = ⟨3, 1, 33000⟩ ∧ s.reader.errors = [.topologyNotPrimary] ∧
      ∀ i, (s.history i).Pairwise fun env env' =>
        env.watchdogRole = .primary → env'.watchdogRole = .primary → env.window ≤ env'.window := by
  obtain ⟨s, run, lease, errors⟩ := Run.exists_of_exec step DemotesStandby
    (.new (standardConfig.withDefaults 1) [97]) comeBack
    (fun s => s.reader.lease = ⟨3, 1, 33000⟩ ∧ s.reader.errors = [.topologyNotPrimary])
    (by decide +kernel)
  exact ⟨s, run, lease, errors, (healthy_stream_never_stale (by decide) run).1⟩

/-- The service is demoted, and made primary again before the demotion takes `mu`.  It posts a
standby envelope with the role of a primary and epoch 0, behind an envelope with epoch 1. -/
theorem standby_envelope_of_a_primary :
    ∃ s, Run step Advancing (.new (standardConfig.withDefaults 1) [97])
        [.watch (beatOf 1), .register 0 true (beatAt 0), .next, .next, .next, .unlock,
          .bookwormCheck, .bookworm [([97], ⟨1000000000, none⟩)], .next, .next, .unlock,
          .setLeadership .standby 0, .setLeadership .primary 0, .demote [[97]],
          .enter [⟨[1], 0⟩], .next, .next] s ∧
      (s.service.channel 0).map (fun env => (env.watchdogRole, env.watchdogGeneration, env.epoch)) =
        [(.primary, 1, 1), (.primary, 1, 0)] :=
  Run.exists_of_exec _ _ _ _ _ (by decide +kernel)

end OlricStack.Topology
