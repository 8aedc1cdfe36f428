import OlricStack.Lib.Growth
import OlricStack.Node.LeaseHistory
import OlricStack.Topology.Service

/-!
# The service while its leadership changes

`SetLeadership` writes the role and the generation under a lock of their own.  It may do so at any
time, also while a call holds the lock `mu` of the service; the call reads them again whenever it
makes an envelope.  So a call is taken apart here (`Part`), and its parts interleave with
`SetLeadership`, with the readers of the channels and with the calls that have looked at the role
but do not have `mu` yet.  A demotion then takes `mu` itself and posts a standby envelope to every
subscriber.  `LiveService.step_turn` says what a step of all this can do.
-/

namespace OlricStack.Topology

open Transition Growth Watchdog
open OlricStack.Node (WatchdogRole Lease LeaseError)

/-! ## Calls in parts -/

/-- A part of a call under `mu`, which makes at most one envelope. -/
inductive Part
  /-- go on only if the service is primary -/
  | ifPrimary
  /-- go on only if the epoch is loaded -/
  | load (id : Bytes) (load : Except String ℤ)
  | prune (id : Bytes) (now : ℤ) (io : Broadcast)
  | heartbeat (hb : Heartbeat) (i : ℕ) (now : ℤ) (event : Broadcast)
  | observe (id : Bytes) (observations : List PodObservation) (now : ℤ) (io : Broadcast)
  | broadcast (id : Bytes) (io : Broadcast)
  | answer (id : Bytes) (io : Broadcast)
  | unregister (i : ℕ)

namespace Service

/-- `ObservePods` once the epoch is loaded. -/
def observe (s : Service) (id : Bytes) (observations : List PodObservation) (now : ℤ)
    (io : Broadcast) : Service :=
  let st := s.stack id
  let observed := st.cluster.applyPodObservations observations s.cfg.expireAfter now
  let updated := s.setStack { st with cluster := observed.1 }
  if observed.2 then updated.broadcastLocked id .reconcile io else updated

/-- `GetTopology` once the stack is pruned. -/
def answer (s : Service) (id : Bytes) (io : Broadcast) : Service :=
  let env := s.envelopeFor id .bookworm io.now
  let saved := s.saveEpochLocked id env.epoch io.saveErr
  if saved.2 then saved.1.record (.returned env) else saved.1

/-- What a part does, and whether the call goes on. -/
def runPart (s : Service) : Part → Service × Bool
  | .ifPrimary => (s, s.isPrimary)
  | .load id load => (s.stateFor id).loadEpochLocked id load
  | .prune id now io => (s.pruneExpiredLocked id now io, true)
  | .heartbeat hb i now event => (s.applyHeartbeat hb i now event, true)
  | .observe id observations now io => (s.observe id observations now io, true)
  | .broadcast id io => (s.broadcastLocked id .bookworm io, true)
  | .answer id io => (s.answer id io, true)
  | .unregister i =>
    (match s.subs[i]? with
      | some sub => s.unregister i sub
      | none => s, true)

/-- The parts one after the other, with nothing in between. -/
def runParts (s : Service) : List Part → Service
  | [] => s
  | p :: rest =>
    let out := s.runPart p
    if out.2 then out.1.runParts rest else out.1

end Service

/-- What a heartbeat does under the lock. -/
def heartbeatParts (hb : Heartbeat) (i : ℕ) (io : HeartbeatScript) : List Part :=
  [.load hb.stackID io.load, .prune hb.stackID io.now io.prune, .heartbeat hb i io.now io.event]

/-- What `ObservePods` does under the lock. -/
def observeParts (id : Bytes) (observations : List PodObservation) (load : Except String ℤ)
    (now : ℤ) (io : Broadcast) : List Part :=
  [.ifPrimary, .load id load, .observe id observations now io]

/-- What `GetTopology` does under the lock. -/
def topologyParts (id : Bytes) (load : Except String ℤ) (now : ℤ) (prune io : Broadcast) :
    List Part :=
  [.load id load, .prune id now prune, .answer id io]

/-! Without a change of leadership in between, the parts are the call. -/

theorem runParts_heartbeatParts (s : Service) (hb : Heartbeat) (i : ℕ) (io : HeartbeatScript) :
    s.runParts (heartbeatParts hb i io) = s.registerHeartbeat hb i io := by
  simp only [heartbeatParts, Service.runParts, Service.runPart, Service.registerHeartbeat, if_true]

theorem runParts_observeParts (s : Service) (id : Bytes) (observations : List PodObservation)
    (load : Except String ℤ) (now : ℤ) (io : Broadcast) :
    s.runParts (observeParts id observations load now io) =
      s.observePods id observations load now io := by
  have cfg : ((s.stateFor id).loadEpochLocked id load).1.cfg = s.cfg :=
    Service.cfg_loadEpochLocked _ _ _
  simp only [observeParts, Service.runParts, Service.runPart, Service.observePods, if_true,
    Service.observe, cfg]

theorem runParts_topologyParts {s : Service} (primary : s.isPrimary = true) {id : Bytes}
    (nonempty : id ≠ []) (load : Except String ℤ) (now : ℤ) (prune io : Broadcast) :
    s.runParts (topologyParts id load now prune io) = s.getTopology id load now prune io := by
  simp only [topologyParts, Service.runParts, Service.runPart, Service.getTopology, if_true,
    Service.answer, if_neg nonempty, primary]
  rfl

/-! ## The service under changing leadership -/

/-- What a demotion posts to a subscriber. -/
structure Post where
  stackID : Bytes
  registration : Registration
  envelope : TopologyEnvelope
deriving DecidableEq, Repr

/-- Who holds `mu`. -/
inductive Holder
  | call (parts : List Part)
  /-- phase 1 of `closeSubscribersForLeadershipChange`: whether room has been made for the first
  post, what is left to post in the stack at hand, the stacks to come, and the subscribers to close
  in phase 2 -/
  | demotion (drained : Bool) (posts : List Post) (rest : List Bytes) (pending : List ℕ)

/-- A call that has looked at the role, and what it has found. -/
inductive Checked
  | watch (hb : Heartbeat) (primary : Bool)
  | getTopology (id : Bytes) (primary : Bool)
deriving DecidableEq, Repr

/-- The calls that are under way without `mu`. -/
structure Waiting where
  checked : List Checked
  /-- `SetLeadership` calls that have demoted the service and are about to take `mu` -/
  demoting : ℕ
  /-- the subscribers that phase 2 has yet to close -/
  closing : List ℕ
  /-- the reaper and the bookworm have seen no epoch error -/
  reaperReady : Bool
  bookwormReady : Bool

/-- A node that opens one stream after the other and applies what it receives. -/
structure Reader where
  stackID : Bytes
  /-- the subscriber of the open stream -/
  stream : Option ℕ
  /-- sent on the open stream and not yet received -/
  wire : List TopologyEnvelope
  lease : Lease
  errors : List LeaseError

/-- The service while calls come and leadership changes. -/
structure LiveService where
  service : Service
  holder : Option Holder
  waiting : Waiting
  /-- the envelopes that were taken out of the channels, with the subscriber -/
  taken : List (ℕ × TopologyEnvelope)
  reader : Reader

/-- What the calls, the leadership and the readers do. -/
inductive LiveAction
  | setLeadership (role : WatchdogRole) (generation : ℤ)
  /-- a demotion takes `mu`; the order of the stacks is that of a map -/
  | demote (order : List Bytes)
  /-- it goes on to the next stack; the order of the subscribers is that of a map -/
  | enter (order : List Registration)
  /-- it makes room in a channel and then posts the envelope, or a call does its next part -/
  | next
  | unlock
  /-- phase 2 closes a subscriber -/
  | close (k : ℕ)
  /-- `Watch` looks at the role, and then takes `mu` or answers; `mine` if the node has called -/
  | watch (hb : Heartbeat)
  | register (k : ℕ) (mine : Bool) (io : HeartbeatScript)
  | refuse (k : ℕ) (mine : Bool)
  /-- `GetTopology`, likewise -/
  | query (id : Bytes)
  | getTopology (k : ℕ) (load : Except String ℤ) (now : ℤ) (prune io : Broadcast)
  | receiveHeartbeat (i : ℕ) (hb : Heartbeat) (io : HeartbeatScript)
  | observePods (id : Bytes) (observations : List PodObservation) (load : Except String ℤ) (now : ℤ)
      (io : Broadcast)
  | unregister (i : ℕ)
  | reaperCheck
  | bookwormCheck
  | reaper (now : ℤ) (order : List (Bytes × Broadcast))
  | bookworm (order : List (Bytes × Broadcast))
  /-- `Watch` takes an envelope from its channel and sends it -/
  | receiveEnvelope (i : ℕ)
  /-- the node receives an envelope, or ends its stream -/
  | apply (nowMs : ℤ)
  | hangUp

namespace Service

/-- The assignments of `SetLeadership`. -/
def lead (s : Service) (role : WatchdogRole) (generation : ℤ) : Service :=
  { s with cfg := { s.cfg with
    role := role
    generation := if generation > 0 then generation else s.cfg.generation } }

/-- The envelope is posted, and the subscriber is forgotten. -/
def post (s : Service) (p : Post) : Service :=
  let sent := s.enqueue p.registration.sub p.envelope
  let st := sent.stack p.stackID
  sent.setStack { st with subscribers := st.subscribers.erase p.registration.nodeID }

/-- The stacks that the service knows. -/
def stackIDs (s : Service) : List Bytes := s.stackMap.toList.map StackState.stackID

/-- What is in the channel of a subscriber. -/
def channel (s : Service) (i : ℕ) : List TopologyEnvelope :=
  ((s.subs[i]?).map Subscriber.ch).getD []

end Service

namespace Reader

/-- A reader that has received nothing. -/
def new (stackID : Bytes) : Reader := ⟨stackID, none, [], .new, []⟩

/-- A new stream, with what is on it already. -/
def connect (r : Reader) (stream : Option ℕ) (wire : List TopologyEnvelope) : Reader :=
  { r with stream := stream, wire := wire }

/-- Something is sent on the stream of subscriber `i`. -/
def send (r : Reader) (i : ℕ) (env : TopologyEnvelope) : Reader :=
  if r.stream = some i then { r with wire := r.wire ++ [env] } else r

/-- An envelope that the tracker rejects, because it is not a primary's or has expired, say, leaves
the lease as it is. -/
def apply (r : Reader) (env : TopologyEnvelope) (nowMs : ℤ) : Reader :=
  match r.lease.apply env.lease nowMs with
  | .ok lease => { r with lease := lease }
  | .error err => { r with errors := r.errors ++ [err] }

end Reader

namespace LiveService

/-- `NewServiceWithConfig` at `cfg`, and a node of a stack that has not connected yet. -/
def new (cfg : Config) (stackID : Bytes) : LiveService :=
  ⟨.new cfg, none, ⟨[], 0, [], false, false⟩, [], .new stackID⟩

/-- Everything that was ever put into the channel of a subscriber, in order. -/
def history (s : LiveService) (i : ℕ) : List TopologyEnvelope :=
  (s.taken.filterMap fun t => if t.1 = i then some t.2 else none) ++ s.service.channel i

/-- An envelope is taken out of a channel, if there is one. -/
def take (s : LiveService) (i : ℕ) : LiveService :=
  match s.service.subs[i]? with
  | none => s
  | some sub => { s with
      service := s.service.receiveEnvelope i sub
      taken := s.taken ++ (sub.ch.head?.map fun env => (i, env)).toList }

/-- A call takes `mu`, when it is free. -/
def lock (s : LiveService) (parts : List Part) : Option LiveService :=
  if s.holder.isNone then some { s with holder := some (.call parts) } else none

/-- The calls that wait are `w` now. -/
def wait (s : LiveService) (w : Waiting) : LiveService := { s with waiting := w }

/-- A call has passed its check of the role and waits for `mu`. -/
def check (s : LiveService) (c : Checked) : LiveService :=
  s.wait { s.waiting with checked := s.waiting.checked ++ [c] }

/-- The `k`-th of these calls goes on. -/
def checkedOut (s : LiveService) (k : ℕ) : LiveService :=
  s.wait { s.waiting with checked := s.waiting.checked.eraseIdx k }

/-- What a node does when a new stream begins, if it is its own. -/
def stream (s : LiveService) (mine : Bool) (stream : Option ℕ) (wire : List TopologyEnvelope) :
    Reader :=
  if mine then s.reader.connect stream wire else s.reader

/-- The next part of the call or the demotion that holds `mu`. -/
def next (s : LiveService) : Holder → Option LiveService
  | .call [] => none
  | .call (p :: rest) =>
    let out := s.service.runPart p
    some { s with service := out.1, holder := some (.call (if out.2 then rest else [])) }
  | .demotion _ [] _ _ => none
  | .demotion false (p :: posts) rest pending =>
    some { s.take p.registration.sub with
      holder := some (.demotion true (p :: posts) rest pending) }
  | .demotion true (p :: posts) rest pending =>
    some { s with
      service := s.service.post p
      holder := some (.demotion false posts rest (pending ++ [p.registration.sub])) }

/-- One step of a call, of a change of leadership or of a reader. -/
def step (s : LiveService) : LiveAction → Option LiveService
  | .setLeadership role generation =>
    let demoted := s.service.isPrimary && role ≠ .primary
    some { s with
      service := s.service.lead role generation
      waiting := { s.waiting with
        demoting := if demoted then s.waiting.demoting + 1 else s.waiting.demoting } }
  | .demote order =>
    if s.holder.isNone ∧ 0 < s.waiting.demoting ∧ order.Perm s.service.stackIDs then
      some { s with
        holder := some (.demotion false [] order [])
        waiting := { s.waiting with demoting := s.waiting.demoting - 1 } }
    else none
  | .enter order =>
    match s.holder with
    | some (.demotion _ [] (id :: rest) pending) =>
      if order.Perm (s.service.stack id).subscribers.toList then
        let posts := order.map fun r => ⟨id, r, s.service.standbyEnvelope id⟩
        some { s with holder := some (.demotion false posts rest pending) }
      else none
    | _ => none
  | .next => s.holder.bind s.next
  | .unlock =>
    match s.holder with
    | some (.call []) => some { s with holder := none }
    | some (.demotion _ [] [] pending) =>
      some { s with
        holder := none
        waiting := { s.waiting with closing := s.waiting.closing ++ pending } }
    | _ => none
  | .close k => do
    let i ← s.waiting.closing[k]?
    return { s with
      service := s.service.closeSubscriber i
      waiting := { s.waiting with closing := s.waiting.closing.eraseIdx k } }
  | .watch hb =>
    if (Service.validateHeartbeat hb).isSome then none
    else some (s.check (.watch hb s.service.isPrimary))
  | .register k mine io =>
    match s.waiting.checked[k]? with
    | some (.watch hb true) =>
      if mine ∧ hb.stackID ≠ s.reader.stackID then none
      else
        let i := s.service.subs.length
        { s.checkedOut k with
          service := s.service.connect hb.stream
          reader := s.stream mine (some i) [] }.lock (heartbeatParts hb i io)
    | _ => none
  | .refuse k mine =>
    match s.waiting.checked[k]? with
    | some (.watch hb false) =>
      some { s.checkedOut k with
        reader := s.stream mine none [s.service.standbyEnvelope hb.stackID] }
    | some (.getTopology id false) =>
      some { s.checkedOut k with
        service := s.service.record (.returned (s.service.standbyEnvelope id)) }
    | _ => none
  | .query id => if id = [] then none else some (s.check (.getTopology id s.service.isPrimary))
  | .getTopology k load now prune io =>
    match s.waiting.checked[k]? with
    | some (.getTopology id true) => (s.checkedOut k).lock (topologyParts id load now prune io)
    | _ => none
  | .receiveHeartbeat i hb io => do
    let sub ← s.service.subs[i]?
    if hb.stream ≠ sub.id ∨ (Service.validateHeartbeat hb).isSome then none
    else s.lock (heartbeatParts hb i io)
  | .observePods id observations load now io => s.lock (observeParts id observations load now io)
  | .unregister i => s.lock [.unregister i]
  | .reaperCheck => some (s.wait { s.waiting with reaperReady := s.service.epochErr = none })
  | .bookwormCheck => some (s.wait { s.waiting with bookwormReady := s.service.epochErr = none })
  | .reaper now order =>
    if s.waiting.reaperReady ∧ (order.map Prod.fst).Perm s.service.stackIDs then
      (s.wait { s.waiting with reaperReady := false }).lock
        (.ifPrimary :: order.map fun (id, io) => .prune id now io)
    else none
  | .bookworm order =>
    if s.waiting.bookwormReady ∧ (order.map Prod.fst).Perm s.service.stackIDs then
      (s.wait { s.waiting with bookwormReady := false }).lock
        (.ifPrimary :: order.map fun (id, io) => .broadcast id io)
    else none
  | .receiveEnvelope i =>
    match s.service.channel i with
    | [] => none
    | env :: _ => some { s.take i with reader := s.reader.send i env }
  | .apply nowMs =>
    match s.reader.wire with
    | [] => none
    | env :: wire => some { s with reader := { s.reader with wire := wire }.apply env nowMs }
  | .hangUp => some { s with reader := s.reader.connect none [] }

end LiveService

namespace Service

/-! ## Channels -/

theorem channel_set (s : Service) {i : ℕ} {sub : Subscriber} (found : s.subs[i]? = some sub)
    (moved : Subscriber) (j : ℕ) :
    ({ s with subs := s.subs.set i moved } : Service).channel j =
      if j = i then moved.ch else s.channel j := by
  unfold channel
  dsimp only
  split_ifs with same
  · subst same
    rw [List.getElem?_set_self (List.getElem?_eq_some_iff.1 found).1]
    rfl
  · rw [List.getElem?_set_ne (Ne.symm same)]

theorem channel_of_getElem? {s : Service} {i : ℕ} {sub : Subscriber}
    (found : s.subs[i]? = some sub) : s.channel i = sub.ch := by
  rw [channel, found]
  rfl

theorem channel_connect (s : Service) (id : StreamID) (j : ℕ) :
    (s.connect id).channel j = s.channel j := by
  unfold channel connect
  dsimp only
  rcases lt_trichotomy j s.subs.length with lt | rfl | gt
  · rw [List.getElem?_append_left lt]
  · rw [List.getElem?_concat_length, List.getElem?_eq_none le_rfl]
    rfl
  · rw [List.getElem?_eq_none (le_of_lt gt), List.getElem?_eq_none]
    rw [List.length_append, List.length_singleton]
    exact gt

theorem channel_closeSubscriber (s : Service) (i j : ℕ) :
    (s.closeSubscriber i).channel j = s.channel j := by
  unfold closeSubscriber
  split
  · rfl
  · next sub found =>
    rw [channel_set s found]
    split_ifs with same
    · rw [same, channel_of_getElem? found]
    · rfl

theorem cfg_closeSubscriber (s : Service) (i : ℕ) : (s.closeSubscriber i).cfg = s.cfg := by
  unfold closeSubscriber
  split <;> rfl

theorem stack_closeSubscriber (s : Service) (i : ℕ) (id : Bytes) :
    (s.closeSubscriber i).stack id = s.stack id := by
  unfold closeSubscriber
  split <;> rfl

theorem channel_subscribe (s : Service) (hb : Heartbeat) (cluster : ClusterState) (i j : ℕ) :
    (s.subscribe hb cluster i).channel j = s.channel j := by
  unfold subscribe
  dsimp only
  split
  · split_ifs
    · exact s.channel_closeSubscriber _ j
    · rfl
  · rfl

/-- A send gets through to a subscriber whose channel is not full. -/
theorem channel_enqueue (s : Service) {i : ℕ} {dst : StreamID} (found : s.ids[i]? = some dst)
    (env : TopologyEnvelope) (j : ℕ) :
    (s.enqueue i env).channel j =
      if j = i ∧ (s.channel i).length < 8 then s.channel i ++ [env] else s.channel j := by
  rw [ids, List.getElem?_map] at found
  obtain ⟨sub, found, -⟩ := Option.map_eq_some_iff.1 found
  unfold enqueue
  rw [found, channel_of_getElem? found]
  dsimp only
  by_cases room : sub.ch.length < 8
  · rw [if_pos room]
    simp only [room, and_true]
    exact channel_set s found _ j
  · rw [if_neg room, if_neg (fun h => room h.2)]

/-! ## Whose channels the envelopes of a stack reach -/

/-- The subscriber's stream is one of the stack. -/
def Belongs (s : Service) (r : Registration) (id : Bytes) : Prop :=
  ∃ dst, s.ids[r.sub]? = some dst ∧ dst.stackID = id

/-- The subscribers of every stack belong to it, and no channel has more than eight envelopes. -/
structure Owned (s : Service) : Prop where
  belongs : ∀ id, ∀ r ∈ (s.stack id).subscribers.toList, s.Belongs r id
  room : ∀ i, (s.channel i).length ≤ 8

theorem owned_new (cfg : Config) : (Service.new cfg).Owned where
  belongs _ _ member := absurd member (List.not_mem_nil)
  room _ := Nat.zero_le 8

/-- Subscribers stay, and stay whose they are. -/
def KeepsIDs (s s' : Service) : Prop :=
  ∀ (i : ℕ) dst, s.ids[i]? = some dst → s'.ids[i]? = some dst

theorem Belongs.mono {s s' : Service} (keeps : s.KeepsIDs s') {r : Registration} {id : Bytes}
    (h : s.Belongs r id) : s'.Belongs r id := by
  obtain ⟨dst, found, same⟩ := h
  exact ⟨dst, keeps _ _ found, same⟩

section

variable {s s' : Service}

/-- Nothing that the ownership depends on has changed. -/
theorem Owned.congr (h : s.Owned) (ids : s'.ids = s.ids)
    (subscribers : ∀ id, (s'.stack id).subscribers = (s.stack id).subscribers)
    (channel : ∀ i, (s'.channel i).length ≤ (s.channel i).length) : s'.Owned where
  belongs id r member := by
    rw [subscribers] at member
    rw [Belongs, ids]
    exact h.belongs id r member
  room i := (channel i).trans (h.room i)

theorem Owned.setStack (h : s.Owned) {st : StackState}
    (belongs : ∀ r ∈ st.subscribers.toList, s.Belongs r st.stackID) : (s.setStack st).Owned where
  belongs id r member := by
    by_cases same : id = st.stackID
    · subst same
      rw [stack_setStack_self] at member
      exact belongs r member
    · rw [stack_setStack_of_ne s same] at member
      exact h.belongs id r member
  room := h.room

theorem Owned.enqueue (h : s.Owned) {i : ℕ} {dst : StreamID} (found : s.ids[i]? = some dst)
    (env : TopologyEnvelope) : (s.enqueue i env).Owned where
  belongs id r member := by
    rw [stack_enqueue] at member
    rw [Belongs, ids_enqueue]
    exact h.belongs id r member
  room j := by
    rw [channel_enqueue s found]
    split_ifs with last
    · rw [List.length_append]
      exact last.2
    · exact h.room j

theorem Owned.closeSubscriber (h : s.Owned) (i : ℕ) : (s.closeSubscriber i).Owned := by
  refine h.congr (s.ids_closeSubscriber i) (fun id => ?_) fun j => ?_
  · rw [stack_closeSubscriber]
  · rw [channel_closeSubscriber]

theorem Owned.connect (h : s.Owned) (id : StreamID) : (s.connect id).Owned where
  belongs k r member :=
    (h.belongs k r member).mono fun _ _ own => (Move.connect id).own own
  room j := by
    rw [channel_connect]
    exact h.room j

theorem Owned.subscribe (h : s.Owned) {hb : Heartbeat} {i : ℕ} (own : s.ids[i]? = some hb.stream)
    (cluster : ClusterState) : (s.subscribe hb cluster i).Owned where
  belongs id r member := by
    rw [Belongs, ids_subscribe]
    rcases mem_subscribers_subscribe member with old | ⟨rfl, rfl⟩
    · exact h.belongs id r old
    · exact ⟨hb.stream, own, rfl⟩
  room j := by
    rw [channel_subscribe]
    exact h.room j

theorem Owned.act {fresh : ClusterState → ℤ → Prop} (h : s.Owned) (a : Act fresh s s') :
    s'.Owned := by
  cases a with
  | error | loaded | saved | returned | standby => exact ⟨h.belongs, h.room⟩
  | review st _ subscribers =>
    exact h.setStack fun r member => h.belongs _ r (subscribers r member)
  | subscribe hb i now own => exact h.subscribe own _
  | send id r reason now member =>
    obtain ⟨dst, found, -⟩ := h.belongs id r member
    exact h.enqueue found _
  | connect id => exact h.connect id

theorem Owned.acts {fresh : ClusterState → ℤ → Prop} (h : s.Owned) (as : Acts fresh s s') :
    s'.Owned := by
  induction as with
  | refl => exact h
  | tail _ a ih => exact ih.act a

theorem Owned.receiveEnvelope (h : s.Owned) {i : ℕ} {sub : Subscriber}
    (found : s.subs[i]? = some sub) : (s.receiveEnvelope i sub).Owned := by
  refine h.congr (map_set_of_getElem? found rfl) (fun _ => rfl) fun j => ?_
  unfold Service.receiveEnvelope
  rw [channel_set s found]
  split_ifs with same
  · rw [same, channel_of_getElem? found, List.length_tail]
    exact Nat.sub_le _ 1
  · exact le_rfl

/-- What a step of the server keeps as well. -/
theorem Owned.step {s u : Server} (h : s.service.Owned) {a : ServerAction}
    (enabled : s.step a = some u) : u.service.Owned := by
  rcases Server.step_acts enabled (s.timely_any a) with acts | ⟨i, sub, found, received⟩
  · exact h.acts acts
  · rw [received]
    exact h.receiveEnvelope found

/-- An act adds to a channel the envelope of its own stack, or nothing. -/
theorem Act.channel {fresh : ClusterState → ℤ → Prop} (a : Act fresh s s') (owned : s.Owned)
    (i : ℕ) :
    s'.channel i = s.channel i ∨
      ∃ dst reason now, s.ids[i]? = some dst ∧
        s'.channel i = s.channel i ++ [s.envelopeFor dst.stackID reason now] := by
  cases a with
  | error | review | loaded | saved | returned | standby => exact .inl rfl
  | subscribe hb j now => exact .inl (s.channel_subscribe hb _ j i)
  | send id r reason now member =>
    obtain ⟨dst, found, rfl⟩ := owned.belongs id r member
    rw [channel_enqueue s found]
    split_ifs with last
    · obtain ⟨rfl, -⟩ := last
      exact .inr ⟨dst, reason, now, found, rfl⟩
    · exact .inl rfl
  | connect id => exact .inl (s.channel_connect id i)

/-- Acts add to the channels envelopes with the role of the service. -/
theorem Acts.channel {fresh : ClusterState → ℤ → Prop} (as : Acts fresh s s') (owned : s.Owned)
    (i : ℕ) : Grows (fun env => env.watchdogRole = s.cfg.role) (s.channel i) (s'.channel i) := by
  induction as with
  | refl => exact .of_eq rfl
  | @tail t u before a ih =>
    refine ih.trans ?_
    rcases a.channel (owned.acts before) i with eq | ⟨dst, reason, now, -, eq⟩
    · exact .of_eq eq
    · refine ⟨_, eq, fun env member => ?_⟩
      rw [List.mem_singleton.1 member, envelopeFor, Moves.cfg_eq (Acts.moves before)]

end

/-! ## Parts -/

/-- A heartbeat is for the subscriber of its own stream. -/
def OwnPart (s : Service) : Part → Prop
  | .heartbeat hb i _ _ => s.ids[i]? = some hb.stream
  | _ => True

theorem OwnPart.mono {s s' : Service} (keeps : s.KeepsIDs s') {p : Part} (h : s.OwnPart p) :
    s'.OwnPart p := by
  cases p with
  | heartbeat hb i now event => exact keeps i _ h
  | ifPrimary | load | prune | observe | broadcast | answer | unregister => trivial

/-- A part is a sequence of acts. -/
theorem acts_runPart {s : Service} {p : Part} (own : s.OwnPart p) :
    Acts (fun _ _ => True) s (s.runPart p).1 := by
  cases p with
  | ifPrimary => exact .refl
  | load id load => exact s.acts_load id load
  | prune id now io => exact acts_pruneExpiredLocked fun _ => trivial
  | heartbeat hb i now event => exact acts_applyHeartbeat own fun _ => trivial
  | observe id observations now io => exact acts_observe trivial
  | broadcast id io => exact acts_broadcastLocked trivial _
  | answer id io => exact acts_answer .bookworm trivial
  | unregister i =>
    dsimp only [runPart]
    split
    · exact s.acts_unregister i _
    · exact .refl

/-! ## Demotions -/

section

variable {s : Service} {p : Post}

theorem ids_post (s : Service) (p : Post) : (s.post p).ids = s.ids := s.ids_enqueue _ _

theorem cfg_post (s : Service) (p : Post) : (s.post p).cfg = s.cfg := s.cfg_enqueue _ _

theorem stack_post_of_ne {id : Bytes} (other : id ≠ p.stackID) :
    (s.post p).stack id = s.stack id := by
  unfold post
  rw [stack_setStack_of_ne, stack_enqueue]
  rwa [stackID_stack]

theorem cluster_post (s : Service) (p : Post) (id : Bytes) :
    ((s.post p).stack id).cluster = (s.stack id).cluster := by
  by_cases same : id = p.stackID
  · unfold post
    dsimp only
    rw [same, stack_setStack_of_eq, stack_enqueue]
    exact stackID_stack _ _
  · rw [stack_post_of_ne same]

/-- The envelope is posted if there is room. -/
theorem channel_post (belongs : s.Belongs p.registration p.stackID) (i : ℕ) :
    (s.post p).channel i =
      if i = p.registration.sub ∧ (s.channel p.registration.sub).length < 8 then
        s.channel p.registration.sub ++ [p.envelope]
      else s.channel i := by
  obtain ⟨dst, found, -⟩ := belongs
  exact channel_enqueue s found p.envelope i

theorem grows_post (belongs : s.Belongs p.registration p.stackID) (i : ℕ) :
    Grows (fun env => env = p.envelope) (s.channel i) ((s.post p).channel i) := by
  rw [channel_post belongs]
  split_ifs with last
  · rw [last.1]
    exact ⟨[p.envelope], rfl, fun env => List.mem_singleton.1⟩
  · exact .of_eq rfl

theorem Owned.post (h : s.Owned) (belongs : s.Belongs p.registration p.stackID) :
    (s.post p).Owned := by
  obtain ⟨dst, found, -⟩ := belongs
  have sent := h.enqueue found p.envelope
  refine sent.setStack fun r member => ?_
  dsimp only
  rw [stackID_stack]
  exact sent.belongs _ r (List.mem_of_mem_filter member)

theorem standbyEnvelope_congr {s' : Service} (cfg : s'.cfg = s.cfg) (id : Bytes) :
    s'.standbyEnvelope id = s.standbyEnvelope id := by
  rw [standbyEnvelope, standbyEnvelope, cfg]

/-- Only stacks of the map have subscribers. -/
theorem mem_stackIDs {id : Bytes} {r : Registration}
    (registered : r ∈ (s.stack id).subscribers.toList) : id ∈ s.stackIDs := by
  unfold stack at registered
  cases found : s.stackMap.lookup id with
  | none =>
    rw [found] at registered
    exact absurd registered List.not_mem_nil
  | some st =>
    obtain ⟨member, key⟩ := s.stackMap.lookup_eq_some_iff.1 found
    exact List.mem_map.2 ⟨st, member, key⟩

end

end Service

namespace LiveService

/-! ## Steps -/

/-- What is left to post in the stack at hand. -/
def posts (s : LiveService) : List Post :=
  match s.holder with
  | some (.demotion _ posts _ _) => posts
  | _ => []

/-- What a step can do. -/
inductive Turn (s : LiveService) : LiveAction → LiveService → Prop
  | wait {a : LiveAction} (w : Waiting) : Turn s a (s.wait w)
  | lead (role : WatchdogRole) (generation : ℤ) (w : Waiting) :
      Turn s (.setLeadership role generation)
        { s with service := s.service.lead role generation, waiting := w }
  | lock {a : LiveAction} (parts : List Part) (w : Waiting) (free : s.holder = none)
      (own : ∀ p ∈ parts, s.service.OwnPart p) :
      Turn s a { s with holder := some (.call parts), waiting := w }
  | register {a : LiveAction} (hb : Heartbeat) (mine : Bool) (io : HeartbeatScript) (w : Waiting)
      (free : s.holder = none) (stack : mine → hb.stackID = s.reader.stackID) :
      Turn s a { s with
        service := s.service.connect hb.stream
        reader := s.stream mine (some s.service.subs.length) []
        holder := some (.call (heartbeatParts hb s.service.subs.length io))
        waiting := w }
  | part {a : LiveAction} (p : Part) (rest left : List Part)
      (held : s.holder = some (.call (p :: rest))) (fewer : left ⊆ rest) :
      Turn s a { s with service := (s.service.runPart p).1, holder := some (.call left) }
  | demote {a : LiveAction} (order : List Bytes) (w : Waiting) (free : s.holder = none)
      (all : order.Perm s.service.stackIDs) :
      Turn s a { s with holder := some (.demotion false [] order []), waiting := w }
  | enter (order : List Registration) (drained : Bool) (id : Bytes) (rest : List Bytes)
      (pending : List ℕ) (held : s.holder = some (.demotion drained [] (id :: rest) pending))
      (all : order.Perm (s.service.stack id).subscribers.toList) :
      Turn s (.enter order) { s with
        holder := some (.demotion false
          (order.map fun r => ⟨id, r, s.service.standbyEnvelope id⟩) rest pending) }
  | drain {a : LiveAction} (p : Post) (posts : List Post) (rest : List Bytes) (pending : List ℕ)
      (held : s.holder = some (.demotion false (p :: posts) rest pending)) :
      Turn s a { s.take p.registration.sub with
        holder := some (.demotion true (p :: posts) rest pending) }
  | post {a : LiveAction} (p : Post) (posts : List Post) (rest : List Bytes) (pending : List ℕ)
      (held : s.holder = some (.demotion true (p :: posts) rest pending)) :
      Turn s a { s with
        service := s.service.post p
        holder := some (.demotion false posts rest (pending ++ [p.registration.sub])) }
  | unlock (w : Waiting) : Turn s .unlock { s with holder := none, waiting := w }
  | close {a : LiveAction} (i : ℕ) (w : Waiting) :
      Turn s a { s with service := s.service.closeSubscriber i, waiting := w }
  | refuse {a : LiveAction} (hb : Heartbeat) (mine : Bool) (w : Waiting) :
      Turn s a { s with
        reader := s.stream mine none [s.service.standbyEnvelope hb.stackID]
        waiting := w }
  | answer {a : LiveAction} (id : Bytes) (w : Waiting) :
      Turn s a { s with
        service := s.service.record (.returned (s.service.standbyEnvelope id))
        waiting := w }
  | receive {a : LiveAction} (i : ℕ) (env : TopologyEnvelope) (rest : List TopologyEnvelope)
      (ready : s.service.channel i = env :: rest) :
      Turn s a { s.take i with reader := s.reader.send i env }
  | apply (env : TopologyEnvelope) (wire : List TopologyEnvelope) (nowMs : ℤ)
      (ready : s.reader.wire = env :: wire) :
      Turn s (.apply nowMs) { s with reader := { s.reader with wire := wire }.apply env nowMs }
  | hangUp {a : LiveAction} : Turn s a { s with reader := s.reader.connect none [] }

variable {s u : LiveService} {a : LiveAction}

theorem mem_posts {drained : Bool} {posts : List Post} {rest : List Bytes} {pending : List ℕ}
    (held : s.holder = some (.demotion drained posts rest pending)) {p : Post} (h : p ∈ posts) :
    p ∈ s.posts := by
  rwa [LiveService.posts, held]

theorem turn_of_lock {w : Waiting} {parts : List Part} (h : (s.wait w).lock parts = some u)
    (own : ∀ p ∈ parts, s.service.OwnPart p) : Turn s a u := by
  unfold lock at h
  split_ifs at h with free
  cases h
  exact .lock parts w (Option.isNone_iff_eq_none.1 free) own

/-- A tick holds no heartbeat. -/
theorem ownPart_tick {s : Service} {f : Bytes × Broadcast → Part} (own : ∀ x, s.OwnPart (f x))
    (order : List (Bytes × Broadcast)) : ∀ p ∈ .ifPrimary :: order.map f, s.OwnPart p := by
  intro p member
  rcases List.mem_cons.1 member with rfl | member
  · trivial
  · obtain ⟨x, -, rfl⟩ := List.mem_map.1 member
    exact own x

theorem turn_of_next {holder : Holder} (held : s.holder = some holder)
    (h : s.next holder = some u) : Turn s a u := by
  unfold next at h
  split at h
  · cases h
  · next p rest =>
    cases h
    refine .part p rest _ held ?_
    split_ifs
    · exact List.Subset.refl rest
    · exact List.nil_subset rest
  · cases h
  · cases h
    exact .drain _ _ _ _ held
  · cases h
    exact .post _ _ _ _ held

theorem step_turn (h : s.step a = some u) : Turn s a u := by
  cases a with
  | setLeadership role generation =>
    cases h
    exact .lead role generation _
  | demote order =>
    simp only [step] at h
    split_ifs at h with ready
    cases h
    exact .demote order _ (Option.isNone_iff_eq_none.1 ready.1) ready.2.2
  | enter order =>
    simp only [step] at h
    split at h
    · next held =>
      split_ifs at h with all
      cases h
      exact .enter order _ _ _ _ held all
    · cases h
  | next =>
    obtain ⟨holder, held, h⟩ := Option.bind_eq_some_iff.1 h
    exact turn_of_next held h
  | unlock =>
    simp only [step] at h
    split at h
    · cases h
      exact .unlock s.waiting
    · cases h
      exact .unlock _
    · cases h
  | close k =>
    obtain ⟨i, -, h⟩ := Option.bind_eq_some_iff.1 h
    cases h
    exact .close i _
  | watch hb =>
    simp only [step] at h
    split_ifs at h
    cases h
    exact .wait _
  | register k mine io =>
    simp only [step] at h
    split at h
    · next hb _ =>
      split_ifs at h with other
      unfold lock at h
      split_ifs at h with free
      cases h
      refine .register hb mine io _ (Option.isNone_iff_eq_none.1 free) fun own => ?_
      exact not_not.1 fun ne => other ⟨own, ne⟩
    · cases h
  | refuse k mine =>
    simp only [step] at h
    split at h
    · cases h
      exact .refuse _ mine _
    · cases h
      exact .answer _ _
    · cases h
  | query id =>
    simp only [step] at h
    split_ifs at h
    cases h
    exact .wait _
  | getTopology k load now prune io =>
    simp only [step] at h
    split at h
    · refine turn_of_lock h ?_
      simp [topologyParts, Service.OwnPart]
    · cases h
  | receiveHeartbeat i hb io =>
    obtain ⟨sub, found, h⟩ := Option.bind_eq_some_iff.1 h
    split_ifs at h with other
    refine turn_of_lock (w := s.waiting) h ?_
    have own : s.service.ids[i]? = some hb.stream := by
      rw [Service.ids, List.getElem?_map, found, not_not.1 (not_or.1 other).1]
      rfl
    simp [heartbeatParts, Service.OwnPart, own]
  | observePods id observations load now io =>
    refine turn_of_lock (w := s.waiting) h ?_
    simp [observeParts, Service.OwnPart]
  | unregister i =>
    refine turn_of_lock (w := s.waiting) h ?_
    simp [Service.OwnPart]
  | reaperCheck =>
    cases h
    exact .wait _
  | bookwormCheck =>
    cases h
    exact .wait _
  | reaper now order =>
    simp only [step] at h
    split_ifs at h
    refine turn_of_lock h (ownPart_tick ?_ order)
    exact fun _ => trivial
  | bookworm order =>
    simp only [step] at h
    split_ifs at h
    refine turn_of_lock h (ownPart_tick ?_ order)
    exact fun _ => trivial
  | receiveEnvelope i =>
    simp only [step] at h
    split at h
    · cases h
    · next env rest ready =>
      cases h
      exact .receive i env rest ready
  | apply nowMs =>
    simp only [step] at h
    split at h
    · cases h
    · next env wire ready =>
      cases h
      exact .apply env wire nowMs ready
  | hangUp =>
    cases h
    exact .hangUp

end LiveService

end OlricStack.Topology
