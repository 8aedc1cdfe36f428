import Mathlib.Logic.Relation
import OlricStack.Lib.Run
import OlricStack.Node.Fencing
import OlricStack.Watchdog.Cluster

/-!
# The topology service

`Service` of `internal/topology/service.go`: for every stack a cluster state and the subscribers of
its nodes, an epoch store that may fail, and one error flag for the whole service.  Every call runs
under the service's lock and is a function here; what it meets, the clock and the answers of the
store, are its arguments.  `Server` adds the loops of the reaper and of the bookworm, which look at
the flag before they take the lock and then go from stack to stack.  Every call is a sequence of a
few kinds of moves (`Server.step_moves`).
-/

namespace OlricStack.Topology

open Transition Watchdog
open OlricStack.Node (WatchdogRole)

/-! ## Data -/

/-- `topologypb.TopologyReason`: why an envelope is sent. -/
inductive TopologyReason
  | event
  | bookworm
  | prune
  | reconcile
  | primaryChange
deriving DecidableEq, Repr

/-- `topologypb.TopologyEnvelope`. -/
structure TopologyEnvelope where
  stackID : Bytes
  members : List Member
  epoch : ℤ
  reason : TopologyReason
  validUntilUnixMs : ℤ
  watchdogID : Bytes
  watchdogGeneration : ℤ
  watchdogRole : WatchdogRole
deriving DecidableEq, Repr

/-- What the lease tracker of a node reads. -/
def TopologyEnvelope.lease (env : TopologyEnvelope) : Node.Envelope :=
  ⟨env.watchdogRole, env.watchdogGeneration, env.epoch, env.validUntilUnixMs⟩

/-- `topologypb.Heartbeat`. -/
structure Heartbeat where
  stackID : Bytes
  nodeID : Bytes
  podName : Bytes
  podIP : Bytes
  incarnation : ℤ
  observedEpoch : ℤ
  state : NodeState
  protocolVersion : Bytes
deriving DecidableEq, Repr

/-- Whose stream it is: the identity that all heartbeats of one `Watch` call carry. -/
structure StreamID where
  stackID : Bytes
  nodeID : Bytes
  incarnation : ℤ
deriving DecidableEq, Repr

/-- The stream that a heartbeat belongs to. -/
def Heartbeat.stream (hb : Heartbeat) : StreamID := ⟨hb.stackID, hb.nodeID, hb.incarnation⟩

/-- The fields of `Config` that the calls read; durations are in nanoseconds. -/
structure Config where
  suspectAfter : ℤ
  expireAfter : ℤ
  leaseTTL : ℤ
  watchdogID : Bytes
  generation : ℤ
  role : WatchdogRole
  hasEpochStore : Bool
deriving DecidableEq, Repr

/-- `withDefaults`, with the reading of the clock that becomes a missing generation. -/
def Config.withDefaults (c : Config) (nowUnixNano : ℤ) : Config :=
  let expireAfter := if c.expireAfter ≤ 0 then 30000000000 else c.expireAfter
  { c with
    suspectAfter := if c.suspectAfter ≤ 0 then 20000000000 else c.suspectAfter
    expireAfter := expireAfter
    leaseTTL := if c.leaseTTL ≤ 0 then expireAfter else c.leaseTTL
    watchdogID := if c.watchdogID = [] then "watchdog".toUTF8.toList else c.watchdogID
    generation := if c.generation ≤ 0 then nowUnixNano else c.generation
    role := if c.role = .unspecified then .primary else c.role }

/-- A subscriber with its channel; `done` tells whether the `done` channel is closed. -/
structure Subscriber where
  id : StreamID
  ch : List TopologyEnvelope
  done : Bool
deriving DecidableEq, Repr

/-- An entry of the map of subscribers: a node and the subscriber it points to. -/
structure Registration where
  nodeID : Bytes
  sub : ℕ
deriving DecidableEq, Repr

/-- What the service keeps of a stack. -/
structure StackState where
  stackID : Bytes
  cluster : ClusterState
  subscribers : KeyedSet Registration.nodeID
  loadedEpoch : Bool

/-- What the service has done, in order: the epochs read from and written to the store, the
registrations with the epoch at the time, the envelopes put into a channel or returned. -/
inductive ServiceEvent
  | loaded (stackID : Bytes) (epoch : ℤ)
  | saved (stackID : Bytes) (epoch : ℤ)
  | registered (id : StreamID) (epoch : ℤ)
  | enqueued (id : StreamID) (env : TopologyEnvelope)
  | returned (env : TopologyEnvelope)
deriving DecidableEq, Repr

/-- The error that `epochErr` has, with its text. -/
inductive EpochError
  | load (text : String)
  | save (text : String)
deriving DecidableEq, Repr

/-- `Service`; all subscribers ever made are in `subs`, `log` is the record of what was done. -/
structure Service where
  cfg : Config
  stackMap : KeyedSet StackState.stackID
  subs : List Subscriber
  epochErr : Option EpochError
  log : List ServiceEvent

/-- What a broadcast meets: the clock, and the error of `SaveEpoch`. -/
structure Broadcast where
  now : ℤ
  saveErr : Option String
deriving DecidableEq, Repr

/-- What a heartbeat meets: the answer of `LoadEpoch`, the clock, and the broadcasts after the
pruning and after the heartbeat itself. -/
structure HeartbeatScript where
  load : Except String ℤ
  now : ℤ
  prune : Broadcast
  event : Broadcast

namespace Service

/-- `NewServiceWithConfig` is this at `cfg.withDefaults`; nothing below depends on the defaults. -/
def new (cfg : Config) : Service := ⟨cfg, .empty, [], none, []⟩

/-- The state of a stack; `stateFor` makes a new one. -/
def stack (s : Service) (id : Bytes) : StackState :=
  (s.stackMap.lookup id).getD ⟨id, .new, .empty, false⟩

/-- Store a stack in place of its old state. -/
def setStack (s : Service) (st : StackState) : Service :=
  { s with stackMap := s.stackMap.insert st }

/-- `stateFor` makes the stack if it is not there. -/
def stateFor (s : Service) (id : Bytes) : Service := s.setStack (s.stack id)

/-- `setEpochError`. -/
def setEpochError (s : Service) (err : Option EpochError) : Service := { s with epochErr := err }

/-- Write an event into the log. -/
def record (s : Service) (ev : ServiceEvent) : Service := { s with log := s.log ++ [ev] }

/-! ## The calls -/

/-- `loadEpochLocked`, with the answer of the epoch store; the flag says whether there is no error.
-/
def loadEpochLocked (s : Service) (id : Bytes) (load : Except String ℤ) : Service × Bool :=
  let st := s.stack id
  if st.loadedEpoch then (s, true)
  else if s.cfg.hasEpochStore = false then (s.setStack { st with loadedEpoch := true }, true)
  else
    match load with
    | .error text => (s.setEpochError (some (.load text)), false)
    | .ok epoch =>
      (((s.setStack { st with
          loadedEpoch := true
          cluster := st.cluster.bumpEpochAtLeast epoch }).record
            (.loaded id epoch)).setEpochError none, true)

/-- `saveEpochLocked`, with the error of the epoch store. -/
def saveEpochLocked (s : Service) (id : Bytes) (epoch : ℤ) (saveErr : Option String) :
    Service × Bool :=
  if s.cfg.hasEpochStore = false then (s.setEpochError none, true)
  else
    match saveErr with
    | some text => (s.setEpochError (some (.save text)), false)
    | none => ((s.record (.saved id epoch)).setEpochError none, true)

/-- `envelopeFor`: what the members of a stack are told now. -/
def envelopeFor (s : Service) (id : Bytes) (reason : TopologyReason) (now : ℤ) :
    TopologyEnvelope where
  stackID := id
  members := (s.stack id).cluster.members s.cfg.expireAfter now
  epoch := (s.stack id).cluster.epoch
  reason := reason
  validUntilUnixMs := (now + s.cfg.leaseTTL) / 1000000
  watchdogID := s.cfg.watchdogID
  watchdogGeneration := s.cfg.generation
  watchdogRole := s.cfg.role

/-- `standbyEnvelope`: what a watchdog sends that is not primary. -/
def standbyEnvelope (s : Service) (id : Bytes) : TopologyEnvelope where
  stackID := id
  members := []
  epoch := 0
  reason := .primaryChange
  validUntilUnixMs := 0
  watchdogID := s.cfg.watchdogID
  watchdogGeneration := s.cfg.generation
  watchdogRole := s.cfg.role

/-- A send that does not block: the channel holds eight envelopes, one more is dropped. -/
def enqueue (s : Service) (i : ℕ) (env : TopologyEnvelope) : Service :=
  match s.subs[i]? with
  | none => s
  | some sub =>
    if sub.ch.length < 8 then
      { s with subs := s.subs.set i { sub with ch := sub.ch ++ [env] } }.record
        (.enqueued sub.id env)
    else s

/-- `closeSubscriber`, which ends the stream. -/
def closeSubscriber (s : Service) (i : ℕ) : Service :=
  match s.subs[i]? with
  | none => s
  | some sub => { s with subs := s.subs.set i { sub with done := true } }

/-- `broadcastLocked`: nothing is sent that could not be saved. -/
def broadcastLocked (s : Service) (id : Bytes) (reason : TopologyReason) (io : Broadcast) :
    Service :=
  let env := s.envelopeFor id reason io.now
  let saved := s.saveEpochLocked id env.epoch io.saveErr
  if saved.2 then
    (s.stack id).subscribers.toList.foldl (fun s r => s.enqueue r.sub env) saved.1
  else saved.1

/-- `sendLatestLocked`. -/
def sendLatestLocked (s : Service) (id : Bytes) (i : ℕ) (reason : TopologyReason) (now : ℤ) :
    Service :=
  if s.epochErr ≠ none then s else s.enqueue i (s.envelopeFor id reason now)

/-- `pruneExpiredLocked`. -/
def pruneExpiredLocked (s : Service) (id : Bytes) (now : ℤ) (io : Broadcast) : Service :=
  let st := s.stack id
  let pruned := st.cluster.pruneExpired s.cfg.suspectAfter s.cfg.expireAfter now
  if pruned.2 then
    let members := pruned.1.members s.cfg.expireAfter now
    (s.setStack { st with
      cluster := pruned.1
      subscribers := st.subscribers.filter fun r => members.any fun m => m.nodeID = r.nodeID
      }).broadcastLocked id .prune io
  else s.setStack { st with cluster := pruned.1 }

/-- The node's subscriber is from now on this one; one that it replaces is closed. -/
def subscribe (s : Service) (hb : Heartbeat) (cluster : ClusterState) (i : ℕ) : Service :=
  let st := s.stack hb.stackID
  let closed :=
    match st.subscribers.lookup hb.nodeID with
    | some current => if current.sub ≠ i then s.closeSubscriber current.sub else s
    | none => s
  (closed.setStack { st with
    cluster := cluster
    subscribers := st.subscribers.insert ⟨hb.nodeID, i⟩ }).record
      (.registered hb.stream cluster.epoch)

/-- What a heartbeat shows at the time `now`. -/
def observation (hb : Heartbeat) (now : ℤ) : HeartbeatObservation where
  nodeID := hb.nodeID
  podName := hb.podName
  podIP := hb.podIP
  incarnation := hb.incarnation
  reportedState := hb.state
  protocolVersion := hb.protocolVersion
  seenAt := now

/-- `registerHeartbeat` once the epoch is loaded and the stack pruned. -/
def applyHeartbeat (s : Service) (hb : Heartbeat) (i : ℕ) (now : ℤ) (event : Broadcast) : Service :=
  let applied := (s.stack hb.stackID).cluster.applyHeartbeat (observation hb now)
  match applied.2 with
  | .stale => s
  | .changed => (s.subscribe hb applied.1 i).broadcastLocked hb.stackID .event event
  | .unchanged =>
    let registered := s.subscribe hb applied.1 i
    if hb.observedEpoch < applied.1.epoch then
      registered.sendLatestLocked hb.stackID i .bookworm event.now
    else registered

/-- `registerHeartbeat`. -/
def registerHeartbeat (s : Service) (hb : Heartbeat) (i : ℕ) (io : HeartbeatScript) : Service :=
  let loaded := (s.stateFor hb.stackID).loadEpochLocked hb.stackID io.load
  if loaded.2 then
    (loaded.1.pruneExpiredLocked hb.stackID io.now io.prune).applyHeartbeat hb i io.now io.event
  else loaded.1

/-- `validateHeartbeat`, with the text of its error. -/
def validateHeartbeat (hb : Heartbeat) : Option String :=
  if hb.stackID = [] then some "stack_id is required"
  else if hb.nodeID = [] then some "node_id is required"
  else if hb.podIP = [] then some "pod_ip is required"
  else if hb.incarnation ≤ 0 then some "incarnation is required"
  else none

/-- `isPrimary`. -/
def isPrimary (s : Service) : Bool := s.cfg.role = .primary

/-- A new subscriber. -/
def connect (s : Service) (id : StreamID) : Service :=
  { s with subs := s.subs ++ [⟨id, [], false⟩] }

/-- `Watch` up to its first registration.  A standby answers on the stream and makes no
subscriber. -/
def watch (s : Service) (hb : Heartbeat) (io : HeartbeatScript) : Service :=
  if (validateHeartbeat hb).isSome then s
  else if s.isPrimary then
    (s.connect hb.stream).registerHeartbeat hb s.subs.length io
  else s

/-- One turn of `receiveHeartbeats`; a heartbeat of another identity ends the stream. -/
def receiveHeartbeat (s : Service) (i : ℕ) (sub : Subscriber) (hb : Heartbeat)
    (io : HeartbeatScript) : Service :=
  if hb.stream ≠ sub.id then s
  else if (validateHeartbeat hb).isSome then s
  else s.registerHeartbeat hb i io

/-- `unregister`: only the subscriber that is registered is taken out. -/
def unregister (s : Service) (i : ℕ) (sub : Subscriber) : Service :=
  let st := s.stack sub.id.stackID
  match st.subscribers.lookup sub.id.nodeID with
  | some current =>
    if current.sub = i then
      s.setStack { st with subscribers := st.subscribers.erase sub.id.nodeID }
    else s.stateFor sub.id.stackID
  | none => s.stateFor sub.id.stackID

/-- `ObservePods`. -/
def observePods (s : Service) (id : Bytes) (observations : List PodObservation)
    (load : Except String ℤ) (now : ℤ) (io : Broadcast) : Service :=
  if s.isPrimary then
    let loaded := (s.stateFor id).loadEpochLocked id load
    if loaded.2 then
      let st := loaded.1.stack id
      let observed := st.cluster.applyPodObservations observations s.cfg.expireAfter now
      let updated := loaded.1.setStack { st with cluster := observed.1 }
      if observed.2 then updated.broadcastLocked id .reconcile io else updated
    else loaded.1
  else s

/-- `GetTopology`; `io` is the clock and the answer of the store for the envelope itself. -/
def getTopology (s : Service) (id : Bytes) (load : Except String ℤ) (now : ℤ)
    (prune io : Broadcast) : Service :=
  if id = [] then s
  else if s.isPrimary then
    let loaded := (s.stateFor id).loadEpochLocked id load
    if loaded.2 then
      let pruned := loaded.1.pruneExpiredLocked id now prune
      let env := pruned.envelopeFor id .bookworm io.now
      let saved := pruned.saveEpochLocked id env.epoch io.saveErr
      if saved.2 then saved.1.record (.returned env) else saved.1
    else loaded.1
  else s.record (.returned (s.standbyEnvelope id))

/-- `Watch` takes an envelope from its channel to send it. -/
def receiveEnvelope (s : Service) (i : ℕ) (sub : Subscriber) : Service :=
  { s with subs := s.subs.set i { sub with ch := sub.ch.tail } }

end Service

/-! ## The service and its loops -/

/-- A tick that holds the lock: what it does to every stack, and the stacks still to come. -/
structure Tick where
  /-- the reaper's reading of the clock; the bookworm has none -/
  reaper : Option ℤ
  rest : List Bytes
deriving DecidableEq, Repr

/-- The service with the ticks of the reaper and the bookworm. -/
structure Server where
  service : Service
  /-- the reaper has seen no epoch error and is about to take the lock -/
  reaperReady : Bool
  bookwormReady : Bool
  tick : Option Tick

/-- What the streams, the controller and the two loops do. -/
inductive ServerAction
  | watch (hb : Heartbeat) (io : HeartbeatScript)
  | receiveHeartbeat (i : ℕ) (hb : Heartbeat) (io : HeartbeatScript)
  | receiveEnvelope (i : ℕ)
  | unregister (i : ℕ)
  | observePods (id : Bytes) (observations : List PodObservation) (load : Except String ℤ) (now : ℤ)
      (io : Broadcast)
  | getTopology (id : Bytes) (load : Except String ℤ) (now : ℤ) (prune io : Broadcast)
  /-- the reaper's and the bookworm's look at the error flag -/
  | reaperCheck
  | bookwormCheck
  /-- they take the lock; the order of the stacks is that of a map -/
  | reaperLock (now : ℤ) (order : List Bytes)
  | bookwormLock (order : List Bytes)
  /-- the next stack of the tick under way -/
  | tick (io : Broadcast)

namespace Server

/-- A server with a new service. -/
def new (cfg : Config) : Server := ⟨.new cfg, false, false, none⟩

/-- The lock is taken for all stacks, if the service is primary. -/
def lockAll (s : Server) (reaper : Option ℤ) (order : List Bytes) : Option Server :=
  if s.service.isPrimary then
    if order.Perm (s.service.stackMap.toList.map StackState.stackID) then
      some { s with tick := some ⟨reaper, order⟩ }
    else none
  else some s

/-- A call under the lock, which no tick may hold. -/
def call (s : Server) (service : Service) : Option Server :=
  if s.tick = none then some { s with service := service } else none

/-- What a loop does with one stack on its tick; the reaper comes with its time. -/
def tickStack (s : Service) (reaper : Option ℤ) (id : Bytes) (io : Broadcast) : Service :=
  match reaper with
  | some now => s.pruneExpiredLocked id now io
  | none => s.broadcastLocked id .bookworm io

/-- One action of the server. -/
def step (s : Server) : ServerAction → Option Server
  | .watch hb io => s.call (s.service.watch hb io)
  | .receiveHeartbeat i hb io => do
    let sub ← s.service.subs[i]?
    s.call (s.service.receiveHeartbeat i sub hb io)
  | .receiveEnvelope i => do
    let sub ← s.service.subs[i]?
    return { s with service := s.service.receiveEnvelope i sub }
  | .unregister i => do
    let sub ← s.service.subs[i]?
    s.call (s.service.unregister i sub)
  | .observePods id observations load now io =>
    s.call (s.service.observePods id observations load now io)
  | .getTopology id load now prune io => s.call (s.service.getTopology id load now prune io)
  | .reaperCheck => some { s with reaperReady := s.service.epochErr = none }
  | .bookwormCheck => some { s with bookwormReady := s.service.epochErr = none }
  | .reaperLock now order =>
    if s.tick = none ∧ s.reaperReady then { s with reaperReady := false }.lockAll (some now) order
    else none
  | .bookwormLock order =>
    if s.tick = none ∧ s.bookwormReady then { s with bookwormReady := false }.lockAll none order
    else none
  | .tick io =>
    match s.tick with
    | none => none
    | some ⟨_, []⟩ => some { s with tick := none }
    | some ⟨reaper, id :: rest⟩ =>
      some { s with service := tickStack s.service reaper id io, tick := some ⟨reaper, rest⟩ }

/-- The steps of the server.  `Watch`, `GetTopology` and the other calls are one step each, a tick
is one step for every stack. -/
inductive Steps (s : Server) : ServerAction → Server → Prop
  | watch {hb : Heartbeat} {io : HeartbeatScript} :
      Steps s (.watch hb io) { s with service := s.service.watch hb io }
  | receiveHeartbeat {i : ℕ} {hb : Heartbeat} {io : HeartbeatScript} {sub : Subscriber}
      (found : s.service.subs[i]? = some sub) :
      Steps s (.receiveHeartbeat i hb io)
        { s with service := s.service.receiveHeartbeat i sub hb io }
  | receiveEnvelope {i : ℕ} {sub : Subscriber} (found : s.service.subs[i]? = some sub) :
      Steps s (.receiveEnvelope i) { s with service := s.service.receiveEnvelope i sub }
  | unregister {i : ℕ} {sub : Subscriber} (found : s.service.subs[i]? = some sub) :
      Steps s (.unregister i) { s with service := s.service.unregister i sub }
  | observePods {id : Bytes} {observations : List PodObservation} {load : Except String ℤ} {now : ℤ}
      {io : Broadcast} :
      Steps s (.observePods id observations load now io)
        { s with service := s.service.observePods id observations load now io }
  | getTopology {id : Bytes} {load : Except String ℤ} {now : ℤ} {prune io : Broadcast} :
      Steps s (.getTopology id load now prune io)
        { s with service := s.service.getTopology id load now prune io }
  | reaperCheck : Steps s .reaperCheck { s with reaperReady := s.service.epochErr = none }
  | bookwormCheck : Steps s .bookwormCheck { s with bookwormReady := s.service.epochErr = none }
  | reaperLock {now : ℤ} {order : List Bytes}
      (all : order.Perm (s.service.stackMap.toList.map StackState.stackID)) :
      Steps s (.reaperLock now order)
        { s with reaperReady := false, tick := some ⟨some now, order⟩ }
  | reaperStandby {now : ℤ} {order : List Bytes} :
      Steps s (.reaperLock now order) { s with reaperReady := false }
  | bookwormLock {order : List Bytes} (ready : s.bookwormReady = true)
      (all : order.Perm (s.service.stackMap.toList.map StackState.stackID)) :
      Steps s (.bookwormLock order) { s with bookwormReady := false, tick := some ⟨none, order⟩ }
  | bookwormStandby {order : List Bytes} :
      Steps s (.bookwormLock order) { s with bookwormReady := false }
  | tick {io : Broadcast} {reaper : Option ℤ} {id : Bytes} {rest : List Bytes}
      (ticking : s.tick = some ⟨reaper, id :: rest⟩) :
      Steps s (.tick io)
        { s with service := tickStack s.service reaper id io, tick := some ⟨reaper, rest⟩ }
  | unlock {io : Broadcast} : Steps s (.tick io) { s with tick := none }

theorem eq_of_call {s u : Server} {service : Service} (h : s.call service = some u) :
    u = { s with service := service } := by
  unfold call at h
  split_ifs at h
  cases h
  rfl

theorem steps_of_step {s u : Server} {a : ServerAction} (h : s.step a = some u) : s.Steps a u := by
  cases a with
  | watch hb io =>
    rw [eq_of_call h]
    exact .watch
  | receiveHeartbeat i hb io =>
    obtain ⟨sub, found, h⟩ := Option.bind_eq_some_iff.1 h
    rw [eq_of_call h]
    exact .receiveHeartbeat found
  | receiveEnvelope i =>
    obtain ⟨sub, found, h⟩ := Option.bind_eq_some_iff.1 h
    cases h
    exact .receiveEnvelope found
  | unregister i =>
    obtain ⟨sub, found, h⟩ := Option.bind_eq_some_iff.1 h
    rw [eq_of_call h]
    exact .unregister found
  | observePods id observations load now io =>
    rw [eq_of_call h]
    exact .observePods
  | getTopology id load now prune io =>
    rw [eq_of_call h]
    exact .getTopology
  | reaperCheck =>
    cases h
    exact .reaperCheck
  | bookwormCheck =>
    cases h
    exact .bookwormCheck
  | reaperLock now order =>
    simp only [step, lockAll] at h
    split_ifs at h with free primary all <;> cases h
    · exact .reaperLock all
    · exact .reaperStandby
  | bookwormLock order =>
    simp only [step, lockAll] at h
    split_ifs at h with free primary all <;> cases h
    · exact .bookwormLock free.2 all
    · exact .bookwormStandby
  | tick io =>
    simp only [step] at h
    split at h
    · cases h
    · cases h
      exact .unlock
    · next ticking =>
      cases h
      exact .tick ticking

end Server

namespace Service

/-! ## Moves -/

@[simp] theorem stackID_stack (s : Service) (id : Bytes) : (s.stack id).stackID = id := by
  unfold stack
  cases h : s.stackMap.lookup id with
  | none => rfl
  | some st => exact s.stackMap.key_of_lookup h

@[simp] theorem stack_setStack_self (s : Service) (st : StackState) :
    (s.setStack st).stack st.stackID = st := by
  rw [stack, setStack, s.stackMap.lookup_insert_self]
  rfl

theorem stack_setStack_of_eq (s : Service) {st : StackState} {id : Bytes} (h : st.stackID = id) :
    (s.setStack st).stack id = st := by
  rw [← h, stack_setStack_self]

/-- A stack is replaced by another one of the same name. -/
@[simp] theorem stack_setStack_same (s : Service) (id : Bytes) (cluster : ClusterState)
    (subscribers : KeyedSet Registration.nodeID) (loadedEpoch : Bool) :
    (s.setStack ⟨(s.stack id).stackID, cluster, subscribers, loadedEpoch⟩).stack id =
      ⟨(s.stack id).stackID, cluster, subscribers, loadedEpoch⟩ :=
  s.stack_setStack_of_eq (s.stackID_stack id)

theorem stack_setStack_of_ne (s : Service) {st : StackState} {id : Bytes} (h : id ≠ st.stackID) :
    (s.setStack st).stack id = s.stack id := by
  rw [stack, setStack, s.stackMap.lookup_insert_of_ne h]
  rfl

theorem stack_setStack_other (s : Service) {id k : Bytes} (h : id ≠ k) (cluster : ClusterState)
    (subscribers : KeyedSet Registration.nodeID) (loadedEpoch : Bool) :
    (s.setStack ⟨(s.stack k).stackID, cluster, subscribers, loadedEpoch⟩).stack id =
      s.stack id :=
  s.stack_setStack_of_ne (by rwa [stackID_stack])

@[simp] theorem stack_record (s : Service) (ev : ServiceEvent) (id : Bytes) :
    (s.record ev).stack id = s.stack id := rfl

@[simp] theorem stack_setEpochError (s : Service) (err : Option EpochError) (id : Bytes) :
    (s.setEpochError err).stack id = s.stack id := rfl

@[simp] theorem stack_enqueue (s : Service) (i : ℕ) (env : TopologyEnvelope) (id : Bytes) :
    (s.enqueue i env).stack id = s.stack id := by
  unfold enqueue
  split
  · rfl
  · split_ifs <;> rfl

/-- Whose the subscribers are. -/
def ids (s : Service) : List StreamID := s.subs.map Subscriber.id

@[simp] theorem ids_enqueue (s : Service) (i : ℕ) (env : TopologyEnvelope) :
    (s.enqueue i env).ids = s.ids := by
  unfold enqueue
  split
  · rfl
  · next sub found =>
    split_ifs
    · exact map_set_of_getElem? found rfl
    · rfl

@[simp] theorem ids_closeSubscriber (s : Service) (i : ℕ) : (s.closeSubscriber i).ids = s.ids := by
  unfold closeSubscriber
  split
  · rfl
  · next sub found => exact map_set_of_getElem? found rfl

theorem log_enqueue (s : Service) (i : ℕ) (env : TopologyEnvelope) :
    (s.enqueue i env).log = s.log ∨
      ∃ dst, s.ids[i]? = some dst ∧ (s.enqueue i env).log = s.log ++ [.enqueued dst env] := by
  unfold enqueue
  split
  · exact .inl rfl
  · next sub found =>
    split_ifs
    · refine .inr ⟨sub.id, ?_, rfl⟩
      rw [ids, List.getElem?_map, found]
      rfl
    · exact .inl rfl

/-- The moves that the calls are made of. -/
inductive Move (s : Service) : Service → Prop
  | error (err : Option EpochError) : Move s (s.setEpochError err)
  /-- time, pods, a loaded epoch and the end of a stream: the epoch does not fall, and no node or
  subscriber is new -/
  | review (st : StackState) (epoch : (s.stack st.stackID).cluster.epoch ≤ st.cluster.epoch)
      (known : ∀ id node', st.cluster.nodes.lookup id = some node' →
        ∃ node, (s.stack st.stackID).cluster.nodes.lookup id = some node ∧
          node'.incarnation = node.incarnation)
      (subscribers : ∀ r ∈ st.subscribers.toList,
        r ∈ (s.stack st.stackID).subscribers.toList) : Move s (s.setStack st)
  | loaded (id : Bytes) (epoch : ℤ) : Move s (s.record (.loaded id epoch))
  | saved (id : Bytes) (epoch : ℤ) : Move s (s.record (.saved id epoch))
  | subscribe (hb : Heartbeat) (i : ℕ) (now : ℤ)
      (own : s.ids[i]? = some hb.stream)
      (fresh : ((s.stack hb.stackID).cluster.applyHeartbeat (observation hb now)).2 ≠ .stale) :
      Move s (s.subscribe hb
        ((s.stack hb.stackID).cluster.applyHeartbeat (observation hb now)).1 i)
  | send (id : Bytes) (r : Registration) (env : TopologyEnvelope)
      (member : r ∈ (s.stack id).subscribers.toList)
      (epoch : env.epoch = (s.stack id).cluster.epoch)
      (generation : env.watchdogGeneration = s.cfg.generation) : Move s (s.enqueue r.sub env)
  | returned (env : TopologyEnvelope) : Move s (s.record (.returned env))
  | channel (i : ℕ) (sub : Subscriber) (ch : List TopologyEnvelope) (done : Bool)
      (is : s.subs[i]? = some sub) : Move s { s with subs := s.subs.set i ⟨sub.id, ch, done⟩ }
  | connect (id : StreamID) : Move s (s.connect id)

/-- Any number of moves. -/
abbrev Moves : Service → Service → Prop := Relation.ReflTransGen Move

@[simp] theorem ids_subscribe (s : Service) (hb : Heartbeat) (cluster : ClusterState) (i : ℕ) :
    (s.subscribe hb cluster i).ids = s.ids := by
  unfold subscribe
  dsimp only
  split
  · split_ifs
    · exact s.ids_closeSubscriber _
    · rfl
  · rfl

/-- A subscriber stays, and stays whose it is. -/
theorem Move.own {s s' : Service} (m : Move s s') {i : ℕ} {id : StreamID}
    (own : s.ids[i]? = some id) : s'.ids[i]? = some id := by
  cases m with
  | error | review | loaded | saved | returned => exact own
  | subscribe => rwa [ids_subscribe]
  | send => rwa [ids_enqueue]
  | channel j sub ch done found =>
    have same : (s.subs.set j ⟨sub.id, ch, done⟩).map Subscriber.id = s.ids :=
      map_set_of_getElem? found rfl
    rwa [ids, same]
  | connect new =>
    rw [ids, Service.connect, List.map_append]
    exact (List.getElem?_append_left (List.getElem?_eq_some_iff.1 own).1).trans own

theorem Moves.own {s s' : Service} (m : Moves s s') {i : ℕ} {id : StreamID}
    (own : s.ids[i]? = some id) : s'.ids[i]? = some id := by
  induction m with
  | refl => exact own
  | tail _ m ih => exact m.own ih

@[simp] theorem cfg_enqueue (s : Service) (i : ℕ) (env : TopologyEnvelope) :
    (s.enqueue i env).cfg = s.cfg := by
  unfold enqueue
  split
  · rfl
  · split_ifs <;> rfl

/-- What does not depend on the error flag, the record and the channels. -/
structure Unsent {β : Type*} (f : Service → β) : Prop where
  error : ∀ s err, f (setEpochError s err) = f s
  record : ∀ s ev, f (Service.record s ev) = f s
  enqueue : ∀ s i env, f (Service.enqueue s i env) = f s

section

variable {β : Type*} {f : Service → β}

theorem Unsent.saveEpochLocked (same : Unsent f) (s : Service) (id : Bytes) (epoch : ℤ)
    (saveErr : Option String) : f (s.saveEpochLocked id epoch saveErr).1 = f s := by
  unfold Service.saveEpochLocked
  split_ifs
  · exact same.error s none
  · split
    · exact same.error s _
    · exact (same.error _ none).trans (same.record s _)

theorem Unsent.sends (same : Unsent f) (rs : List Registration) (s : Service)
    (env : TopologyEnvelope) : f (rs.foldl (fun s r => s.enqueue r.sub env) s) = f s := by
  induction rs generalizing s with
  | nil => rfl
  | cons r rs ih => exact (ih _).trans (same.enqueue s r.sub env)

theorem Unsent.broadcastLocked (same : Unsent f) (s : Service) (id : Bytes)
    (reason : TopologyReason) (io : Broadcast) : f (s.broadcastLocked id reason io) = f s := by
  unfold Service.broadcastLocked
  dsimp only
  split_ifs
  · exact (same.sends _ _ _).trans (same.saveEpochLocked s _ _ _)
  · exact same.saveEpochLocked s _ _ _

theorem Unsent.sendLatestLocked (same : Unsent f) (s : Service) (id : Bytes) (i : ℕ)
    (reason : TopologyReason) (now : ℤ) : f (s.sendLatestLocked id i reason now) = f s := by
  unfold Service.sendLatestLocked
  split_ifs
  · rfl
  · exact same.enqueue s i _

end

theorem unsent_stack (k : Bytes) : Unsent fun s => s.stack k :=
  ⟨fun _ _ => rfl, fun _ _ => rfl, fun s i env => s.stack_enqueue i env k⟩

theorem unsent_cfg : Unsent Service.cfg := ⟨fun _ _ => rfl, fun _ _ => rfl, cfg_enqueue⟩

theorem stack_saveEpochLocked (s : Service) (id k : Bytes) (epoch : ℤ) (saveErr : Option String) :
    (s.saveEpochLocked id epoch saveErr).1.stack k = s.stack k :=
  (unsent_stack k).saveEpochLocked s id epoch saveErr

theorem cfg_saveEpochLocked (s : Service) (id : Bytes) (epoch : ℤ) (saveErr : Option String) :
    (s.saveEpochLocked id epoch saveErr).1.cfg = s.cfg :=
  unsent_cfg.saveEpochLocked s id epoch saveErr

theorem stack_broadcastLocked (s : Service) (id k : Bytes) (reason : TopologyReason)
    (io : Broadcast) : (s.broadcastLocked id reason io).stack k = s.stack k :=
  (unsent_stack k).broadcastLocked s id reason io

/-- A registration touches the channels, the stack and the record. -/
theorem subscribe_eq (s : Service) (hb : Heartbeat) (cluster : ClusterState) (i : ℕ) :
    ∃ subs, s.subscribe hb cluster i =
      ({ s with subs := subs }.setStack { s.stack hb.stackID with
        cluster := cluster
        subscribers := (s.stack hb.stackID).subscribers.insert ⟨hb.nodeID, i⟩ }).record
          (.registered hb.stream cluster.epoch) := by
  unfold subscribe closeSubscriber
  dsimp only
  split
  · split_ifs
    · split
      · exact ⟨_, rfl⟩
      · exact ⟨_, rfl⟩
    · exact ⟨_, rfl⟩
  · exact ⟨_, rfl⟩

theorem cfg_subscribe (s : Service) (hb : Heartbeat) (cluster : ClusterState) (i : ℕ) :
    (s.subscribe hb cluster i).cfg = s.cfg := by
  obtain ⟨subs, same⟩ := s.subscribe_eq hb cluster i
  rw [same]
  rfl

theorem Move.cfg_eq {s s' : Service} (m : Move s s') : s'.cfg = s.cfg := by
  cases m with
  | error | review | loaded | saved | returned | channel | connect => rfl
  | subscribe hb i => exact s.cfg_subscribe hb _ i
  | send => rw [cfg_enqueue]

theorem Moves.cfg_eq {s s' : Service} (ms : Moves s s') : s'.cfg = s.cfg := by
  induction ms with
  | refl => rfl
  | tail _ m ih => exact m.cfg_eq.trans ih

theorem stack_subscribe (s : Service) (hb : Heartbeat) (cluster : ClusterState) (i : ℕ) :
    (s.subscribe hb cluster i).stack hb.stackID = { s.stack hb.stackID with
      cluster := cluster
      subscribers := (s.stack hb.stackID).subscribers.insert ⟨hb.nodeID, i⟩ } := by
  unfold subscribe
  dsimp only
  rw [stack_record]
  exact stack_setStack_of_eq _ (s.stackID_stack hb.stackID)

theorem stack_subscribe_of_ne (s : Service) {hb : Heartbeat} {k : Bytes} (h : k ≠ hb.stackID)
    (cluster : ClusterState) (i : ℕ) : (s.subscribe hb cluster i).stack k = s.stack k := by
  obtain ⟨subs, same⟩ := s.subscribe_eq hb cluster i
  rw [same, stack_record, stack_setStack_of_ne]
  · rfl
  · rwa [stackID_stack]

/-- The subscribers after a registration are the old ones and the new one. -/
theorem mem_subscribers_subscribe {s : Service} {hb : Heartbeat} {cluster : ClusterState} {i : ℕ}
    {k : Bytes} {r : Registration}
    (h : r ∈ ((s.subscribe hb cluster i).stack k).subscribers.toList) :
    r ∈ (s.stack k).subscribers.toList ∨ k = hb.stackID ∧ r = ⟨hb.nodeID, i⟩ := by
  by_cases same : k = hb.stackID
  · rw [same, stack_subscribe] at h
    rw [same]
    rcases List.mem_append.1 h with old | new
    · exact .inl (List.mem_of_mem_filter old)
    · exact .inr ⟨rfl, List.mem_singleton.1 new⟩
  · rw [stack_subscribe_of_ne s same] at h
    exact .inl h

theorem log_subscribe (s : Service) (hb : Heartbeat) (cluster : ClusterState) (i : ℕ) :
    (s.subscribe hb cluster i).log = s.log ++ [.registered hb.stream cluster.epoch] := by
  obtain ⟨subs, same⟩ := s.subscribe_eq hb cluster i
  rw [same]
  rfl

theorem loadedEpoch_pruneExpiredLocked (s : Service) (id : Bytes) (now : ℤ) (io : Broadcast) :
    ((s.pruneExpiredLocked id now io).stack id).loadedEpoch = (s.stack id).loadedEpoch := by
  unfold pruneExpiredLocked
  dsimp only
  split_ifs
  · rw [stack_broadcastLocked, stack_setStack_of_eq]
    exact s.stackID_stack id
  · rw [stack_setStack_of_eq]
    exact s.stackID_stack id

theorem cfg_pruneExpiredLocked (s : Service) (id : Bytes) (now : ℤ) (io : Broadcast) :
    (s.pruneExpiredLocked id now io).cfg = s.cfg := by
  unfold pruneExpiredLocked
  dsimp only
  split_ifs
  · exact unsent_cfg.broadcastLocked _ _ _ _
  · rfl

/-! ## Acts

The moves in more detail: which envelopes are made, and when. -/

/-- An act of a call.  Envelopes are made of a cluster when `fresh` allows it. -/
inductive Act (fresh : ClusterState → ℤ → Prop) (s : Service) : Service → Prop
  | error (err : Option EpochError) : Act fresh s (s.setEpochError err)
  | review (st : StackState) (follows : (s.stack st.stackID).cluster.Follows st.cluster)
      (subscribers : ∀ r ∈ st.subscribers.toList,
        r ∈ (s.stack st.stackID).subscribers.toList) : Act fresh s (s.setStack st)
  | loaded (id : Bytes) (epoch : ℤ) : Act fresh s (s.record (.loaded id epoch))
  | saved (id : Bytes) (epoch : ℤ) : Act fresh s (s.record (.saved id epoch))
  | subscribe (hb : Heartbeat) (i : ℕ) (now : ℤ) (own : s.ids[i]? = some hb.stream)
      (current : ((s.stack hb.stackID).cluster.applyHeartbeat (observation hb now)).2 ≠ .stale) :
      Act fresh s (s.subscribe hb
        ((s.stack hb.stackID).cluster.applyHeartbeat (observation hb now)).1 i)
  | send (id : Bytes) (r : Registration) (reason : TopologyReason) (now : ℤ)
      (member : r ∈ (s.stack id).subscribers.toList) (timely : fresh (s.stack id).cluster now) :
      Act fresh s (s.enqueue r.sub (s.envelopeFor id reason now))
  | returned (id : Bytes) (reason : TopologyReason) (now : ℤ)
      (timely : fresh (s.stack id).cluster now) :
      Act fresh s (s.record (.returned (s.envelopeFor id reason now)))
  | standby (id : Bytes) (role : s.isPrimary = false) :
      Act fresh s (s.record (.returned (s.standbyEnvelope id)))
  | connect (id : StreamID) : Act fresh s (s.connect id)

/-- Any number of acts. -/
abbrev Acts (fresh : ClusterState → ℤ → Prop) : Service → Service → Prop :=
  Relation.ReflTransGen (Act fresh)

variable {fresh : ClusterState → ℤ → Prop}

theorem Act.move {s s' : Service} (a : Act fresh s s') : Move s s' := by
  cases a with
  | error err => exact .error err
  | review st follows subscribers => exact .review st follows.epoch follows.known subscribers
  | loaded id epoch => exact .loaded id epoch
  | saved id epoch => exact .saved id epoch
  | subscribe hb i now own current => exact .subscribe hb i now own current
  | send id r reason now member => exact .send id r _ member rfl rfl
  | returned => exact .returned _
  | standby => exact .returned _
  | connect id => exact .connect id

theorem Acts.moves {s s' : Service} (as : Acts fresh s s') : Moves s s' :=
  Relation.ReflTransGen.mono (fun _ _ => Act.move) s s' as

/-- The stack of the service is replaced by a later one. -/
theorem acts_review {s : Service} {id : Bytes} {cluster : ClusterState}
    {subscribers : KeyedSet Registration.nodeID} (loadedEpoch : Bool)
    (follows : (s.stack id).cluster.Follows cluster)
    (kept : ∀ r ∈ subscribers.toList, r ∈ (s.stack id).subscribers.toList) :
    Acts fresh s (s.setStack ⟨(s.stack id).stackID, cluster, subscribers, loadedEpoch⟩) := by
  refine .single (.review _ ?_ ?_) <;> dsimp only <;> rw [stackID_stack]
  · exact follows
  · exact kept

theorem acts_stateFor (s : Service) (id : Bytes) : Acts fresh s (s.stateFor id) :=
  acts_review _ (.refl _) fun _ hr => hr

theorem acts_loadEpochLocked (s : Service) (id : Bytes) (load : Except String ℤ) :
    Acts fresh s (s.loadEpochLocked id load).1 := by
  unfold loadEpochLocked
  dsimp only
  split_ifs
  · exact .refl
  · exact acts_review _ (.refl _) fun _ hr => hr
  · split
    · exact .single (.error _)
    · next epoch =>
      exact .tail (.tail (acts_review _ (ClusterState.follows_bumpEpochAtLeast _ epoch)
        fun _ hr => hr) (.loaded id epoch)) (.error none)

theorem acts_saveEpochLocked (s : Service) (id : Bytes) (epoch : ℤ) (saveErr : Option String) :
    Acts fresh s (s.saveEpochLocked id epoch saveErr).1 := by
  unfold saveEpochLocked
  split_ifs
  · exact .single (.error none)
  · split
    · exact .single (.error _)
    · exact .tail (.single (.saved id epoch)) (.error none)

/-- An envelope is the same for services with the same configuration and the same stacks. -/
theorem envelopeFor_congr {s s' : Service} (cfg : s'.cfg = s.cfg) (id : Bytes)
    (stack : s'.stack id = s.stack id) (reason : TopologyReason) (now : ℤ) :
    s'.envelopeFor id reason now = s.envelopeFor id reason now := by
  rw [envelopeFor, envelopeFor, cfg, stack]

/-- An envelope to some of the subscribers of its stack. -/
theorem acts_sends {s : Service} (id : Bytes) (reason : TopologyReason) (now : ℤ)
    {env : TopologyEnvelope} {rs : List Registration}
    (members : ∀ r ∈ rs, r ∈ (s.stack id).subscribers.toList)
    (made : env = s.envelopeFor id reason now) (timely : fresh (s.stack id).cluster now) :
    Acts fresh s (rs.foldl (fun s r => s.enqueue r.sub env) s) := by
  induction rs generalizing s with
  | nil => exact .refl
  | cons r rs ih =>
    subst made
    refine .head (.send id r reason now (members r (.head rs)) timely) (ih ?_ ?_ ?_)
    · intro r' hr'
      rw [stack_enqueue]
      exact members r' (.tail r hr')
    · exact (envelopeFor_congr (cfg_enqueue _ _ _) id (stack_enqueue _ _ _ _) reason now).symm
    · rwa [stack_enqueue]

theorem acts_broadcastLocked {s : Service} {id : Bytes} {io : Broadcast}
    (timely : fresh (s.stack id).cluster io.now) (reason : TopologyReason) :
    Acts fresh s (s.broadcastLocked id reason io) := by
  unfold broadcastLocked
  dsimp only
  split_ifs
  · refine (acts_saveEpochLocked _ _ _ _).trans (acts_sends id reason io.now ?_ ?_ ?_)
    · intro r hr
      rwa [stack_saveEpochLocked]
    · exact (envelopeFor_congr (cfg_saveEpochLocked _ _ _ _) id
        (stack_saveEpochLocked _ _ _ _ _) reason io.now).symm
    · rwa [stack_saveEpochLocked]
  · exact acts_saveEpochLocked _ _ _ _

/-- The envelope of a pruning is made when it is allowed. -/
def PruneTimely (fresh : ClusterState → ℤ → Prop) (cfg : Config) (c : ClusterState) (now : ℤ)
    (io : Broadcast) : Prop :=
  (c.pruneExpired cfg.suspectAfter cfg.expireAfter now).2 = true →
    fresh (c.pruneExpired cfg.suspectAfter cfg.expireAfter now).1 io.now

theorem acts_pruneExpiredLocked {s : Service} {id : Bytes} {now : ℤ} {io : Broadcast}
    (timely : PruneTimely fresh s.cfg (s.stack id).cluster now io) :
    Acts fresh s (s.pruneExpiredLocked id now io) := by
  have follows :=
    (s.stack id).cluster.follows_pruneExpired s.cfg.suspectAfter s.cfg.expireAfter now
  unfold pruneExpiredLocked
  dsimp only
  split_ifs with changed
  · refine (acts_review _ follows fun r hr => ?_).trans (acts_broadcastLocked ?_ _)
    · exact List.mem_of_mem_filter hr
    · rw [stack_setStack_of_eq]
      · exact timely changed
      · exact s.stackID_stack id
  · exact acts_review _ follows fun r hr => hr

theorem cluster_pruneExpiredLocked (s : Service) (id : Bytes) (now : ℤ) (io : Broadcast) :
    ((s.pruneExpiredLocked id now io).stack id).cluster =
      ((s.stack id).cluster.pruneExpired s.cfg.suspectAfter s.cfg.expireAfter now).1 := by
  unfold pruneExpiredLocked
  dsimp only
  split_ifs
  · rw [stack_broadcastLocked, stack_setStack_of_eq]
    exact s.stackID_stack id
  · rw [stack_setStack_of_eq]
    exact s.stackID_stack id

theorem acts_applyHeartbeat {s : Service} {hb : Heartbeat} {i : ℕ}
    (own : s.ids[i]? = some hb.stream) {now : ℤ} {event : Broadcast}
    (timely : ((s.stack hb.stackID).cluster.applyHeartbeat (observation hb now)).2 ≠ .stale →
      fresh ((s.stack hb.stackID).cluster.applyHeartbeat (observation hb now)).1 event.now) :
    Acts fresh s (s.applyHeartbeat hb i now event) := by
  have subscribed current : Act fresh s _ := .subscribe hb i now own current
  have stack := s.stack_subscribe hb
    ((s.stack hb.stackID).cluster.applyHeartbeat (observation hb now)).1 i
  unfold applyHeartbeat
  dsimp only
  split
  · exact .refl
  · next changed =>
    have current := changed.trans_ne (by simp : HeartbeatResult.changed ≠ .stale)
    refine .head (subscribed current) (acts_broadcastLocked ?_ _)
    rw [stack]
    exact timely current
  · next unchanged =>
    have current := unchanged.trans_ne (by simp : HeartbeatResult.unchanged ≠ .stale)
    refine .head (subscribed current) ?_
    split_ifs
    · unfold sendLatestLocked
      split_ifs
      · exact .refl
      · refine .single (.send hb.stackID ⟨hb.nodeID, i⟩ _ _ ?_ ?_) <;> rw [stack]
        · exact List.mem_append_right _ (List.mem_singleton_self _)
        · exact timely current
    · exact .refl

/-- The envelopes of a heartbeat are made when it is allowed. -/
structure BeatTimely (fresh : ClusterState → ℤ → Prop) (cfg : Config) (c : ClusterState)
    (hb : Heartbeat) (io : HeartbeatScript) : Prop where
  prune : PruneTimely fresh cfg c io.now io.prune
  event : ((c.pruneExpired cfg.suspectAfter cfg.expireAfter io.now).1.applyHeartbeat
      (observation hb io.now)).2 ≠ .stale →
    fresh ((c.pruneExpired cfg.suspectAfter cfg.expireAfter io.now).1.applyHeartbeat
      (observation hb io.now)).1 io.event.now

theorem cfg_loadEpochLocked (s : Service) (id : Bytes) (load : Except String ℤ) :
    (s.loadEpochLocked id load).1.cfg = s.cfg := by
  unfold loadEpochLocked
  dsimp only
  split_ifs
  · rfl
  · rfl
  · split <;> rfl

/-- Loading the epoch does not touch the nodes. -/
theorem nodes_loadEpochLocked (s : Service) (id : Bytes) (load : Except String ℤ) :
    (((s.stateFor id).loadEpochLocked id load).1.stack id).cluster.nodes =
      (s.stack id).cluster.nodes := by
  have same : (s.stateFor id).stack id = s.stack id :=
    s.stack_setStack_of_eq (s.stackID_stack id)
  unfold loadEpochLocked
  dsimp only
  rw [same]
  split_ifs
  · rw [same]
  · rw [stack_setStack_of_eq]
    exact s.stackID_stack id
  · split
    · rw [stack_setEpochError, same]
    · rw [stack_setEpochError, stack_record, stack_setStack_of_eq]
      · exact ClusterState.nodes_bumpEpochAtLeast _ _
      · exact s.stackID_stack id

/-- The acts of a call up to the loaded epoch. -/
theorem acts_load (s : Service) (id : Bytes) (load : Except String ℤ) :
    Acts fresh s ((s.stateFor id).loadEpochLocked id load).1 :=
  (s.acts_stateFor id).trans (acts_loadEpochLocked _ id load)

theorem acts_registerHeartbeat {s : Service} {hb : Heartbeat} {i : ℕ}
    (own : s.ids[i]? = some hb.stream) {io : HeartbeatScript}
    (timely : ∀ c : ClusterState, c.nodes = (s.stack hb.stackID).cluster.nodes →
      BeatTimely fresh s.cfg c hb io) : Acts fresh s (s.registerHeartbeat hb i io) := by
  have loads : Acts fresh s _ := s.acts_load hb.stackID io.load
  have timely' := timely _ (s.nodes_loadEpochLocked hb.stackID io.load)
  have cfg : ((s.stateFor hb.stackID).loadEpochLocked hb.stackID io.load).1.cfg = s.cfg :=
    cfg_loadEpochLocked _ _ _
  unfold registerHeartbeat
  dsimp only
  split_ifs
  · rw [← cfg] at timely'
    have prunes := loads.trans (acts_pruneExpiredLocked timely'.prune)
    refine prunes.trans (acts_applyHeartbeat (Moves.own (Acts.moves prunes) own) ?_)
    rw [cluster_pruneExpiredLocked]
    exact timely'.event
  · exact loads

theorem ids_connect (s : Service) (id : StreamID) :
    (s.connect id).ids[s.subs.length]? = some id := by
  rw [ids, Service.connect, List.map_append, List.getElem?_append_right (by simp)]
  simp

theorem acts_watch {s : Service} {hb : Heartbeat} {io : HeartbeatScript}
    (timely : ∀ c : ClusterState, c.nodes = (s.stack hb.stackID).cluster.nodes →
      BeatTimely fresh s.cfg c hb io) : Acts fresh s (s.watch hb io) := by
  unfold watch
  split_ifs
  · exact .refl
  · exact .head (.connect hb.stream) (acts_registerHeartbeat (s.ids_connect hb.stream) timely)
  · exact .refl

theorem acts_receiveHeartbeat {s : Service} {i : ℕ} {sub : Subscriber}
    (found : s.subs[i]? = some sub) {hb : Heartbeat} {io : HeartbeatScript}
    (timely : ∀ c : ClusterState, c.nodes = (s.stack hb.stackID).cluster.nodes →
      BeatTimely fresh s.cfg c hb io) : Acts fresh s (s.receiveHeartbeat i sub hb io) := by
  unfold receiveHeartbeat
  split_ifs with other
  · exact .refl
  · exact .refl
  · refine acts_registerHeartbeat ?_ timely
    rw [ids, List.getElem?_map, found, not_not.1 other]
    rfl

theorem acts_unregister (s : Service) (i : ℕ) (sub : Subscriber) :
    Acts fresh s (s.unregister i sub) := by
  unfold unregister
  dsimp only
  split
  · split_ifs
    · exact acts_review _ (.refl _) fun r hr => List.mem_of_mem_filter hr
    · exact acts_stateFor _ _
  · exact acts_stateFor _ _

/-- Pods are observed, and the change is broadcast. -/
theorem acts_observe {s : Service} {id : Bytes} {observations : List PodObservation} {now : ℤ}
    {io : Broadcast} (timely : fresh ((s.stack id).cluster.applyPodObservations observations
      s.cfg.expireAfter now).1 io.now) :
    Acts fresh s
      (let st := s.stack id
      let observed := st.cluster.applyPodObservations observations s.cfg.expireAfter now
      let updated := s.setStack { st with cluster := observed.1 }
      if observed.2 then updated.broadcastLocked id .reconcile io else updated) := by
  have follows :=
    (s.stack id).cluster.follows_applyPodObservations observations s.cfg.expireAfter now
  dsimp only
  split_ifs
  · refine (acts_review _ follows fun r hr => hr).trans (acts_broadcastLocked ?_ _)
    rw [stack_setStack_of_eq]
    · exact timely
    · exact s.stackID_stack id
  · exact acts_review _ follows fun r hr => hr

theorem acts_observePods {s : Service} {id : Bytes} {observations : List PodObservation}
    (load : Except String ℤ) {now : ℤ} {io : Broadcast}
    (timely : ∀ c : ClusterState, c.nodes = (s.stack id).cluster.nodes →
      fresh (c.applyPodObservations observations s.cfg.expireAfter now).1 io.now) :
    Acts fresh s (s.observePods id observations load now io) := by
  have loads : Acts fresh s _ := s.acts_load id load
  have timely' := timely _ (s.nodes_loadEpochLocked id load)
  have cfg : ((s.stateFor id).loadEpochLocked id load).1.cfg = s.cfg := cfg_loadEpochLocked _ _ _
  unfold observePods
  split
  · dsimp only
    split
    · rw [← cfg] at timely' ⊢
      exact loads.trans (acts_observe timely')
    · exact loads
  · exact .refl

/-- An envelope is returned, if its epoch can be saved. -/
theorem acts_answer {s : Service} {id : Bytes} {io : Broadcast} (reason : TopologyReason)
    (timely : fresh (s.stack id).cluster io.now) :
    Acts fresh s
      (let env := s.envelopeFor id reason io.now
      let saved := s.saveEpochLocked id env.epoch io.saveErr
      if saved.2 then saved.1.record (.returned env) else saved.1) := by
  dsimp only
  split_ifs
  · have saves : Acts fresh s _ :=
      s.acts_saveEpochLocked id (s.envelopeFor id reason io.now).epoch io.saveErr
    have cfg := s.cfg_saveEpochLocked id (s.envelopeFor id reason io.now).epoch io.saveErr
    have stack := s.stack_saveEpochLocked id id (s.envelopeFor id reason io.now).epoch io.saveErr
    have answer := Act.returned id reason io.now (stack.symm ▸ timely)
    rw [envelopeFor_congr cfg id stack] at answer
    exact saves.tail answer
  · exact acts_saveEpochLocked _ _ _ _

theorem acts_getTopology {s : Service} {id : Bytes} (load : Except String ℤ) {now : ℤ}
    {prune io : Broadcast}
    (timely : ∀ c : ClusterState, c.nodes = (s.stack id).cluster.nodes →
      PruneTimely fresh s.cfg c now prune ∧
        fresh (c.pruneExpired s.cfg.suspectAfter s.cfg.expireAfter now).1 io.now) :
    Acts fresh s (s.getTopology id load now prune io) := by
  have loads : Acts fresh s _ := s.acts_load id load
  have timely' := timely _ (s.nodes_loadEpochLocked id load)
  have cfg : ((s.stateFor id).loadEpochLocked id load).1.cfg = s.cfg := cfg_loadEpochLocked _ _ _
  rw [← cfg] at timely'
  unfold getTopology
  split_ifs with empty primary
  · exact .refl
  · dsimp only
    split
    · refine (loads.trans (acts_pruneExpiredLocked timely'.1)).trans (acts_answer .bookworm ?_)
      rw [cluster_pruneExpiredLocked]
      exact timely'.2
    · exact loads
  · exact .single (.standby id (Bool.eq_false_iff.2 primary))

end Service

/-! ## Steps of the server -/

/-- The envelopes of a step are made when it is allowed. -/
def Server.Timely (fresh : Config → ClusterState → ℤ → Prop) (s : Server) : ServerAction → Prop
  | .watch hb io =>
    ∀ c : ClusterState, c.nodes = (s.service.stack hb.stackID).cluster.nodes →
      Service.BeatTimely (fresh s.service.cfg) s.service.cfg c hb io
  | .receiveHeartbeat _ hb io =>
    ∀ c : ClusterState, c.nodes = (s.service.stack hb.stackID).cluster.nodes →
      Service.BeatTimely (fresh s.service.cfg) s.service.cfg c hb io
  | .observePods id observations _ now io =>
    ∀ c : ClusterState, c.nodes = (s.service.stack id).cluster.nodes → fresh s.service.cfg
      (c.applyPodObservations observations s.service.cfg.expireAfter now).1 io.now
  | .getTopology id _ now prune io =>
    ∀ c : ClusterState, c.nodes = (s.service.stack id).cluster.nodes →
      Service.PruneTimely (fresh s.service.cfg) s.service.cfg c now prune ∧ fresh s.service.cfg
        (c.pruneExpired s.service.cfg.suspectAfter s.service.cfg.expireAfter now).1 io.now
  | .tick io =>
    match s.tick with
    | some ⟨some now, id :: _⟩ =>
      Service.PruneTimely (fresh s.service.cfg) s.service.cfg (s.service.stack id).cluster now io
    | some ⟨none, id :: _⟩ => fresh s.service.cfg (s.service.stack id).cluster io.now
    | _ => True
  | _ => True

/-- Every step of the server is a sequence of acts of its service, or `Watch` takes an envelope from
its channel. -/
theorem Server.step_acts {fresh : Config → ClusterState → ℤ → Prop} {s u : Server}
    {a : ServerAction} (h : s.step a = some u) (timely : s.Timely fresh a) :
    Service.Acts (fresh s.service.cfg) s.service u.service ∨
      ∃ i sub, s.service.subs[i]? = some sub ∧ u.service = s.service.receiveEnvelope i sub := by
  cases steps_of_step h with
  | watch => exact .inl (Service.acts_watch timely)
  | receiveHeartbeat found => exact .inl (Service.acts_receiveHeartbeat found timely)
  | receiveEnvelope found => exact .inr ⟨_, _, found, rfl⟩
  | unregister => exact .inl (s.service.acts_unregister _ _)
  | observePods => exact .inl (Service.acts_observePods _ timely)
  | getTopology => exact .inl (Service.acts_getTopology _ timely)
  | reaperCheck | bookwormCheck | reaperLock | reaperStandby | bookwormLock | bookwormStandby
  | unlock => exact .inl .refl
  | @tick io reaper id rest ticking =>
    simp only [Timely, ticking] at timely
    cases reaper with
    | some now => exact .inl (Service.acts_pruneExpiredLocked timely)
    | none => exact .inl (Service.acts_broadcastLocked timely _)

theorem Server.timely_any (s : Server) (a : ServerAction) : s.Timely (fun _ _ _ => True) a := by
  cases a with
  | watch | receiveHeartbeat => exact fun _ _ => ⟨fun _ => trivial, fun _ => trivial⟩
  | observePods => exact fun _ _ => trivial
  | getTopology => exact fun _ _ => ⟨fun _ => trivial, trivial⟩
  | tick io =>
    simp only [Timely]
    split
    · exact fun _ => trivial
    · trivial
    · trivial
  | receiveEnvelope | unregister | reaperCheck | bookwormCheck | reaperLock | bookwormLock =>
    trivial

/-- Every step of the server is a sequence of moves of its service. -/
theorem Server.step_moves {s u : Server} {a : ServerAction} (h : s.step a = some u) :
    Service.Moves s.service u.service := by
  rcases step_acts h (s.timely_any a) with acts | ⟨i, sub, found, received⟩
  · exact Service.Acts.moves acts
  · rw [received]
    exact .single (.channel i sub _ _ found)

end OlricStack.Topology
