import OlricStack.Lib.Text
import OlricStack.Node.Deadline

/-!
# Requests

`internal/protocol`: what a node sends for a command (`Command.args`) and how the receiver reads it
back, from `ServeMux` over the handler of the name to the parser (`serveRESP`).  A parser indexes
the arguments as the source does, so that it can also panic, and the loop of `ParseScanCommand` runs
on fuel.  Two commands carry the number of a partition, and their handlers go on with that partition
(`Receiver.serve`); what handlers do besides is not part of a request here.
-/

namespace OlricStack.Wire

open Node

/-- The bytes of a text of ASCII characters. -/
def text (s : String) : Bytes := s.toList.map fun c => UInt8.ofNat c.toNat

/-- The lower case of an ASCII letter. -/
def lowerByte (b : UInt8) : UInt8 := if 65 ≤ b ∧ b ≤ 90 then b + 32 else b

/-- The upper case of an ASCII letter. -/
def upperByte (b : UInt8) : UInt8 := if 97 ≤ b ∧ b ≤ 122 then b - 32 else b

/-- All bytes are ASCII. -/
def Ascii (s : Bytes) : Prop := ∀ b ∈ s, b < 128

instance (s : Bytes) : Decidable (Ascii s) := List.decidableBAll (fun b : UInt8 => b < 128) s

/-- What the parsers use of the Go library: the letters, and the numbers of type `float64`. -/
structure Library (F : Type) where
  toLower : Bytes → Bytes
  toLower_ascii : ∀ s : Bytes, Ascii s → toLower s = s.map lowerByte
  toUpper : Bytes → Bytes
  toUpper_ascii : ∀ s : Bytes, Ascii s → toUpper s = s.map upperByte
  zero : F
  formatFloat : F → Bytes
  parseFloat : Bytes → Option F
  parse_format : ∀ x, parseFloat (formatFloat x) = some x
  /-- `Duration.Seconds` -/
  seconds : ℤ → F
  /-- `time.Duration(x * float64(time.Second))` -/
  duration : F → ℤ

/-! ## Outcomes -/

/-- Why a parser or a handler refuses a request. -/
inductive RequestError
  | wrongNumber (args : List Bytes)
  | invalidArgument (arg : Bytes)
  | needsNumber (arg : Bytes)
  | syntaxError
  /-- an error of `strconv` -/
  | number (arg : Bytes)
  | unknownCommand (command : Bytes)
  | authRequired
  | noPassword
  | wrongPass
  | notOperable
  /-- an error of `getOrCreateDMap` -/
  | dmap (name : Bytes)
deriving DecidableEq

/-- How a parser or a handler ends. -/
inductive Outcome (α : Type)
  | ok (a : α)
  | error (e : RequestError)
  /-- an index out of range, or a method of a partition that is not there -/
  | panics
  /-- has not returned yet -/
  | runs
deriving DecidableEq

namespace Outcome

/-- Go on with what a parser has read. -/
def bind {α β : Type} (r : Outcome α) (f : α → Outcome β) : Outcome β :=
  match r with
  | .ok a => f a
  | .error e => .error e
  | .panics => .panics
  | .runs => .runs

instance : Monad Outcome where
  pure := .ok
  bind := bind

end Outcome

/-- `args[i]`. -/
def arg (args : List Bytes) (i : ℕ) : Outcome Bytes :=
  match args[i]? with
  | some a => .ok a
  | none => .panics

/-- A number, or an error of `strconv`. -/
def number {α : Type} (parse : Bytes → Option α) (a : Bytes) : Outcome α :=
  match parse a with
  | some n => .ok n
  | none => .error (.number a)

/-! ## Commands -/

/-- `protocol.Put`; the durations are seconds and milliseconds. -/
structure Put (F : Type) where
  dmap : Bytes
  key : Bytes
  value : Bytes
  ex : F
  px : ℤ
  exat : F
  pxat : ℤ
  nx : Bool
  xx : Bool
deriving DecidableEq

/-- `protocol.Scan`. -/
structure Scan where
  partID : ℕ
  dmap : Bytes
  cursor : ℕ
  count : ℤ
  matchPattern : Bytes
  replica : Bool
deriving DecidableEq

/-- `protocol.Lock`. -/
structure Lock (F : Type) where
  dmap : Bytes
  key : Bytes
  deadline : F
  ex : F
  px : ℤ
deriving DecidableEq

/-- The commands of the protocol. -/
inductive Command (F : Type)
  | put (p : Put F)
  | putEntry (dmap key value : Bytes)
  | get (dmap key : Bytes) (raw : Bool)
  | getEntry (dmap key : Bytes) (replica : Bool)
  | del (dmap : Bytes) (keys : List Bytes)
  | delEntry (dmap key : Bytes) (replica : Bool)
  | pexpire (dmap key : Bytes) (milliseconds : ℤ)
  | expire (dmap key : Bytes) (seconds : ℤ)
  | destroy (dmap : Bytes) (localOnly : Bool)
  | scan (s : Scan)
  | incr (dmap key : Bytes) (delta : ℤ)
  | decr (dmap key : Bytes) (delta : ℤ)
  | getPut (dmap key value : Bytes) (raw : Bool)
  | incrByFloat (dmap key : Bytes) (delta : F)
  | lock (l : Lock F)
  | unlock (dmap key token : Bytes)
  | lockLease (dmap key token : Bytes) (timeout : F)
  | plockLease (dmap key token : Bytes) (timeout : ℤ)
  | ping (message : Bytes)
  | stats (collectRuntime : Bool)
  | auth (password : Bytes)
  | moveFragment (payload : Bytes)
  | updateRouting (payload : Bytes) (coordinatorID : ℕ)
  | lengthOfPart (partID : ℕ) (replica : Bool)
  | clusterRoutingTable
  | clusterMembers
  | publish (channel message : Bytes)
  | publishInternal (channel message : Bytes)
  | subscribe (channels : List Bytes)
  | psubscribe (patterns : List Bytes)
  | pubSubChannels (pattern : Bytes)
  | pubSubNumpat
  | pubSubNumsub (channels : List Bytes)
deriving DecidableEq

section

variable {F : Type} [DecidableEq F] (lib : Library F)

/-- An option without a value. -/
def flag (set : Bool) (name : String) : List Bytes := if set then [text name] else []

/-- A numeric option is sent unless it is zero. -/
def intOption (name : String) (n : ℤ) : List Bytes :=
  if n ≠ 0 then [text name, Decimal.formatInt n] else []

/-- The same for a floating point number. -/
def floatOption (name : String) (x : F) : List Bytes :=
  if x ≠ lib.zero then [text name, lib.formatFloat x] else []

/-- `Put.Command`. -/
def Put.command (p : Put F) : List Bytes :=
  [text "dm.put", p.dmap, p.key, p.value] ++ (floatOption lib "EX" p.ex ++ (intOption "PX" p.px ++
    (floatOption lib "EXAT" p.exat ++ (intOption "PXAT" p.pxat ++
      (flag p.nx "NX" ++ flag p.xx "XX")))))

/-- `Scan.Command`. -/
def Scan.command (s : Scan) : List Bytes :=
  [text "dm.scan", Decimal.formatNat s.partID, s.dmap, Decimal.formatNat s.cursor] ++
    ((if s.matchPattern ≠ [] then [text "MATCH", s.matchPattern] else []) ++
      (intOption "COUNT" s.count ++ flag s.replica "RC"))

/-- `Lock.Command`. -/
def Lock.command (l : Lock F) : List Bytes :=
  [text "dm.lock", l.dmap, l.key, lib.formatFloat l.deadline] ++
    (floatOption lib "EX" l.ex ++ intOption "PX" l.px)

/-- The method `Command` of each command, with the arguments as they are written. -/
def Command.args : Command F → List Bytes
  | .put p => p.command lib
  | .putEntry dmap key value => [text "dm.putentry", dmap, key, value]
  | .get dmap key raw => [text "dm.get", dmap, key] ++ flag raw "RW"
  | .getEntry dmap key replica => [text "dm.getentry", dmap, key] ++ flag replica "RC"
  | .del dmap keys => [text "dm.del", dmap] ++ keys
  | .delEntry dmap key replica => [text "dm.delentry", dmap, key] ++ flag replica "RC"
  | .pexpire dmap key milliseconds =>
    [text "dm.pexpire", dmap, key, Decimal.formatInt (milliseconds.tdiv millisecond)]
  | .expire dmap key seconds =>
    [text "dm.expire", dmap, key, lib.formatFloat (lib.seconds seconds)]
  | .destroy dmap localOnly => [text "dm.destroy", dmap] ++ flag localOnly "LC"
  | .scan s => s.command
  | .incr dmap key delta => [text "dm.incr", dmap, key, Decimal.formatInt delta]
  | .decr dmap key delta => [text "dm.decr", dmap, key, Decimal.formatInt delta]
  | .getPut dmap key value raw => [text "dm.getput", dmap, key, value] ++ flag raw "RW"
  | .incrByFloat dmap key delta => [text "dm.incrbyfloat", dmap, key, lib.formatFloat delta]
  | .lock l => l.command lib
  | .unlock dmap key token => [text "dm.unlock", dmap, key, token]
  | .lockLease dmap key token timeout =>
    [text "dm.locklease", dmap, key, token, lib.formatFloat timeout]
  | .plockLease dmap key token timeout =>
    [text "dm.plocklease", dmap, key, token, Decimal.formatInt timeout]
  | .ping message => [text "ping"] ++ if message ≠ [] then [message] else []
  | .stats collectRuntime => [text "stats"] ++ flag collectRuntime "CR"
  | .auth password => [text "auth", password]
  | .moveFragment payload => [text "internal.node.movefragment", payload]
  | .updateRouting payload coordinatorID =>
    [text "internal.node.updaterouting", payload, Decimal.formatNat coordinatorID]
  | .lengthOfPart partID replica =>
    [text "internal.node.lengthofpart", Decimal.formatNat partID] ++ flag replica "RC"
  | .clusterRoutingTable => [text "cluster.routingtable"]
  | .clusterMembers => [text "cluster.members"]
  | .publish channel message => [text "publish", channel, message]
  | .publishInternal channel message => [text "publish.internal", channel, message]
  | .subscribe channels => [text "subscribe"] ++ channels
  -- the name of the other command
  | .psubscribe patterns => [text "subscribe"] ++ patterns
  | .pubSubChannels pattern => [text "pubsub channels"] ++ if pattern ≠ [] then [pattern] else []
  | .pubSubNumpat => [text "pubsub numpat"]
  | .pubSubNumsub channels => [text "pubsub numsub"] ++ channels

end

/-! ## Parsers -/

section

variable {F : Type} (lib : Library F)

/-- The first check of a parser. -/
def need {α : Type} (n : ℕ) (args : List Bytes) (k : Outcome α) : Outcome α :=
  if args.length < n then .error (.wrongNumber args) else k

/-- A flag that is read if it is the last one of `n` arguments. -/
def parseFlag (args : List Bytes) (n : ℕ) (name : String) : Outcome Bool :=
  if args.length = n then do
    let a ← arg args (n - 1)
    if a = text name then return true else .error (.invalidArgument a)
  else return false

/-- The options of `ParsePutCommand` without a value, and those with one. -/
def putFlag (name : Bytes) : Option (Put F → Put F) :=
  if name = text "NX" then some fun p => { p with nx := true }
  else if name = text "XX" then some fun p => { p with xx := true }
  else none

/-- The options of PUT that have a value, and what each does with it. -/
def putValue (name : Bytes) : Option (Bytes → Outcome (Put F → Put F)) :=
  if name = text "PX" then some fun value => do
    let px ← number Decimal.parseInt64 value
    return fun p => { p with px := px }
  else if name = text "EX" then some fun value => do
    let ex ← number lib.parseFloat value
    return fun p => { p with ex := ex }
  else if name = text "EXAT" then some fun value => do
    let exat ← number lib.parseFloat value
    return fun p => { p with exat := exat }
  else if name = text "PXAT" then some fun value => do
    let pxat ← number Decimal.parseInt64 value
    return fun p => { p with pxat := pxat }
  else none

/-- The loop of `ParsePutCommand`. -/
def putOptions (p : Put F) : List Bytes → Outcome (Put F)
  | [] => .ok p
  | option :: rest =>
    match putFlag (lib.toUpper option), putValue lib (lib.toUpper option), rest with
    | some set, _, rest => putOptions (set p) rest
    | none, some _, [] => .panics
    | none, some read, value :: rest => (read value).bind fun set => putOptions (set p) rest
    | none, none, _ => .error .syntaxError

/-- `ParsePutCommand`. -/
def parsePutCommand (args : List Bytes) : Outcome (Command F) :=
  need 4 args do
    let dmap ← arg args 1
    let key ← arg args 2
    let value ← arg args 3
    let p ← putOptions lib ⟨dmap, key, value, lib.zero, 0, lib.zero, 0, false, false⟩ (args.drop 4)
    return .put p

/-- `ParsePutEntryCommand`. -/
def parsePutEntryCommand (args : List Bytes) : Outcome (Command F) :=
  need 4 args do return .putEntry (← arg args 1) (← arg args 2) (← arg args 3)

/-- `ParseGetCommand`. -/
def parseGetCommand (args : List Bytes) : Outcome (Command F) :=
  need 3 args do return .get (← arg args 1) (← arg args 2) (← parseFlag args 4 "RW")

/-- Two arguments are enough for the check, and three are read. -/
def parseGetEntryCommand (args : List Bytes) : Outcome (Command F) :=
  need 2 args do return .getEntry (← arg args 1) (← arg args 2) (← parseFlag args 4 "RC")

/-- `ParseDelCommand`. -/
def parseDelCommand (args : List Bytes) : Outcome (Command F) :=
  need 3 args do return .del (← arg args 1) (args.drop 2)

/-- `ParseDelEntryCommand`. -/
def parseDelEntryCommand (args : List Bytes) : Outcome (Command F) :=
  need 3 args do return .delEntry (← arg args 1) (← arg args 2) (← parseFlag args 4 "RC")

/-- `ParsePExpireCommand`; the duration is in nanoseconds. -/
def parsePExpireCommand (args : List Bytes) : Outcome (Command F) :=
  need 4 args do
    let milliseconds ← number Decimal.parseInt64 (← arg args 3)
    return .pexpire (← arg args 1) (← arg args 2) (mul64 milliseconds millisecond)

/-- `ParseExpireCommand`. -/
def parseExpireCommand (args : List Bytes) : Outcome (Command F) :=
  need 4 args do
    let seconds ← number lib.parseFloat (← arg args 3)
    return .expire (← arg args 1) (← arg args 2) (lib.duration seconds)

/-- `ParseDestroyCommand`. -/
def parseDestroyCommand (args : List Bytes) : Outcome (Command F) :=
  need 2 args do return .destroy (← arg args 1) (← parseFlag args 3 "LC")

/-- The options of `ParseScanCommand` with a value. -/
def scanValue (name : Bytes) : Option (Bytes → Outcome (Scan → Scan)) :=
  if name = text "MATCH" then some fun value => .ok fun s => { s with matchPattern := value }
  else if name = text "COUNT" then some fun value => do
    let count ← number Decimal.parseInt64 value
    return fun s => { s with count := count }
  else none

/-- The loop of `ParseScanCommand`; an option that it does not know stays in front. -/
def scanOptions : ℕ → Scan → List Bytes → Outcome Scan
  | 0, _, _ => .runs
  | _ + 1, s, [] => .ok s
  | fuel + 1, s, option :: rest =>
    match scanValue (lib.toUpper option), rest with
    | some _, [] => .panics
    | some read, value :: rest => (read value).bind fun set => scanOptions fuel (set s) rest
    | none, rest =>
      if lib.toUpper option = text "RC" then scanOptions fuel { s with replica := true } rest
      else scanOptions fuel s (option :: rest)

/-- `DefaultScanCount`. -/
def defaultScanCount : ℤ := 10

/-- `ParseScanCommand`; a count of zero is the default count. -/
def parseScanCommand (fuel : ℕ) (args : List Bytes) : Outcome (Command F) :=
  need 4 args do
    let partID ← number Decimal.parseUint64 (← arg args 1)
    let cursor ← number Decimal.parseUint64 (← arg args 3)
    let dmap ← arg args 2
    let s ← scanOptions lib fuel ⟨partID, dmap, cursor, 0, [], false⟩ (args.drop 4)
    return .scan (if s.count = 0 then { s with count := defaultScanCount } else s)

/-- `ParseIncrCommand`. -/
def parseIncrCommand (args : List Bytes) : Outcome (Command F) :=
  need 4 args do
    let delta ← number Decimal.parseInt64 (← arg args 3)
    return .incr (← arg args 1) (← arg args 2) delta

/-- `ParseDecrCommand`. -/
def parseDecrCommand (args : List Bytes) : Outcome (Command F) :=
  need 4 args do
    let delta ← number Decimal.parseInt64 (← arg args 3)
    return .decr (← arg args 1) (← arg args 2) delta

/-- `ParseGetPutCommand`. -/
def parseGetPutCommand (args : List Bytes) : Outcome (Command F) :=
  need 4 args do
    return .getPut (← arg args 1) (← arg args 2) (← arg args 3) (← parseFlag args 5 "RW")

/-- `ParseIncrByFloatCommand`. -/
def parseIncrByFloatCommand (args : List Bytes) : Outcome (Command F) :=
  need 4 args do
    let delta ← number lib.parseFloat (← arg args 3)
    return .incrByFloat (← arg args 1) (← arg args 2) delta

/-- `ParseLockCommand`, which reads one option at most. -/
def parseLockCommand (args : List Bytes) : Outcome (Command F) :=
  need 4 args do
    let deadline ← number lib.parseFloat (← arg args 3)
    let l : Lock F := ⟨← arg args 1, ← arg args 2, deadline, lib.zero, 0⟩
    if args.length > 4 then
      if args.length = 5 then
        -- the text of the error has the argument behind the last one
        .error (.needsNumber (← arg args 5))
      else
        let option := lib.toUpper (← arg args 4)
        if option = text "PX" then
          let px ← number Decimal.parseInt64 (← arg args 5)
          return .lock { l with px := px }
        else if option = text "EX" then
          let ex ← number lib.parseFloat (← arg args 5)
          return .lock { l with ex := ex }
        else .error (.invalidArgument option)
    else return .lock l

/-- `ParseUnlockCommand`. -/
def parseUnlockCommand (args : List Bytes) : Outcome (Command F) :=
  need 4 args do return .unlock (← arg args 1) (← arg args 2) (← arg args 3)

/-- `ParseLockLeaseCommand`. -/
def parseLockLeaseCommand (args : List Bytes) : Outcome (Command F) :=
  need 5 args do
    let timeout ← number lib.parseFloat (← arg args 4)
    return .lockLease (← arg args 1) (← arg args 2) (← arg args 3) timeout

/-- `ParsePLockLeaseCommand`. -/
def parsePLockLeaseCommand (args : List Bytes) : Outcome (Command F) :=
  need 5 args do
    let timeout ← number Decimal.parseInt64 (← arg args 4)
    return .plockLease (← arg args 1) (← arg args 2) (← arg args 3) timeout

/-- `ParsePingCommand`. -/
def parsePingCommand (args : List Bytes) : Outcome (Command F) :=
  need 1 args do
    if args.length = 2 then return .ping (← arg args 1) else return .ping []

/-- `ParseStatsCommand`. -/
def parseStatsCommand (args : List Bytes) : Outcome (Command F) :=
  need 1 args do return .stats (← parseFlag args 2 "CR")

/-- `ParseAuthCommand`. -/
def parseAuthCommand (args : List Bytes) : Outcome (Command F) :=
  if args.length ≠ 2 then .error (.wrongNumber args) else do return .auth (← arg args 1)

/-- `ParseMoveFragmentCommand`. -/
def parseMoveFragmentCommand (args : List Bytes) : Outcome (Command F) :=
  need 2 args do return .moveFragment (← arg args 1)

/-- Two arguments are enough for the check, and three are read. -/
def parseUpdateRoutingCommand (args : List Bytes) : Outcome (Command F) :=
  need 2 args do
    let coordinatorID ← number Decimal.parseUint64 (← arg args 2)
    return .updateRouting (← arg args 1) coordinatorID

/-- `ParseLengthOfPartCommand`. -/
def parseLengthOfPartCommand (args : List Bytes) : Outcome (Command F) :=
  need 2 args do
    let partID ← number Decimal.parseUint64 (← arg args 1)
    return .lengthOfPart partID (← parseFlag args 3 "RC")

/-- `ParseClusterRoutingTable`. -/
def parseClusterRoutingTable (args : List Bytes) : Outcome (Command F) :=
  if args.length > 1 then .error (.wrongNumber args) else .ok .clusterRoutingTable

/-- `ParseClusterMembers`. -/
def parseClusterMembers (args : List Bytes) : Outcome (Command F) :=
  if args.length > 1 then .error (.wrongNumber args) else .ok .clusterMembers

/-- `ParsePublishCommand`. -/
def parsePublishCommand (args : List Bytes) : Outcome (Command F) :=
  need 3 args do return .publish (← arg args 1) (← arg args 2)

/-- `ParsePublishInternalCommand`. -/
def parsePublishInternalCommand (args : List Bytes) : Outcome (Command F) :=
  need 3 args do return .publishInternal (← arg args 1) (← arg args 2)

/-- `ParseSubscribeCommand`. -/
def parseSubscribeCommand (args : List Bytes) : Outcome (Command F) :=
  need 2 args (.ok (.subscribe (args.drop 1)))

/-- `ParsePSubscribeCommand`. -/
def parsePSubscribeCommand (args : List Bytes) : Outcome (Command F) :=
  need 2 args (.ok (.psubscribe (args.drop 1)))

/-- `ParsePubSubChannelsCommand`; the name of the command is two words of the request. -/
def parsePubSubChannelsCommand (args : List Bytes) : Outcome (Command F) :=
  need 2 args do
    if args.length ≥ 3 then return .pubSubChannels (← arg args 2) else return .pubSubChannels []

/-- `ParsePubSubNumpatCommand`. -/
def parsePubSubNumpatCommand (args : List Bytes) : Outcome (Command F) :=
  need 2 args (.ok .pubSubNumpat)

/-- `ParsePubSubNumsubCommand`. -/
def parsePubSubNumsubCommand (args : List Bytes) : Outcome (Command F) :=
  need 2 args (.ok (.pubSubNumsub (args.drop 2)))

/-! ## Dispatch -/

/-- The commands with a handler, in the order in which the services register them. -/
inductive Name
  | ping | clusterRoutingTable | stats | clusterMembers | auth | subscribe | psubscribe | publish
  | publishInternal | pubSubChannels | pubSubNumpat | pubSubNumsub | updateRouting | lengthOfPart
  | put | get | del | delEntry | getEntry | putEntry | expire | pexpire | destroy | scan | incr
  | decr | getPut | incrByFloat | lock | unlock | lockLease | plockLease | moveFragment
deriving DecidableEq

namespace Name

/-- All names. -/
def all : List Name :=
  [.ping, .clusterRoutingTable, .stats, .clusterMembers, .auth, .subscribe, .psubscribe, .publish,
    .publishInternal, .pubSubChannels, .pubSubNumpat, .pubSubNumsub, .updateRouting,
    .lengthOfPart, .put, .get, .del, .delEntry, .getEntry, .putEntry, .expire, .pexpire, .destroy,
    .scan, .incr, .decr, .getPut, .incrByFloat, .lock, .unlock, .lockLease, .plockLease,
    .moveFragment]

/-- The text of a name, in lower case as it is registered. -/
protected def text : Name → Bytes
  | .ping => Wire.text "ping"
  | .clusterRoutingTable => Wire.text "cluster.routingtable"
  | .stats => Wire.text "stats"
  | .clusterMembers => Wire.text "cluster.members"
  | .auth => Wire.text "auth"
  | .subscribe => Wire.text "subscribe"
  | .psubscribe => Wire.text "psubscribe"
  | .publish => Wire.text "publish"
  | .publishInternal => Wire.text "publish.internal"
  | .pubSubChannels => Wire.text "pubsub channels"
  | .pubSubNumpat => Wire.text "pubsub numpat"
  | .pubSubNumsub => Wire.text "pubsub numsub"
  | .updateRouting => Wire.text "internal.node.updaterouting"
  | .lengthOfPart => Wire.text "internal.node.lengthofpart"
  | .put => Wire.text "dm.put"
  | .get => Wire.text "dm.get"
  | .del => Wire.text "dm.del"
  | .delEntry => Wire.text "dm.delentry"
  | .getEntry => Wire.text "dm.getentry"
  | .putEntry => Wire.text "dm.putentry"
  | .expire => Wire.text "dm.expire"
  | .pexpire => Wire.text "dm.pexpire"
  | .destroy => Wire.text "dm.destroy"
  | .scan => Wire.text "dm.scan"
  | .incr => Wire.text "dm.incr"
  | .decr => Wire.text "dm.decr"
  | .getPut => Wire.text "dm.getput"
  | .incrByFloat => Wire.text "dm.incrbyfloat"
  | .lock => Wire.text "dm.lock"
  | .unlock => Wire.text "dm.unlock"
  | .lockLease => Wire.text "dm.locklease"
  | .plockLease => Wire.text "dm.plocklease"
  | .moveFragment => Wire.text "internal.node.movefragment"

/-- The parser that the handler begins with. -/
def parse (fuel : ℕ) : Name → List Bytes → Outcome (Command F)
  | .ping => parsePingCommand
  | .clusterRoutingTable => parseClusterRoutingTable
  | .stats => parseStatsCommand
  | .clusterMembers => parseClusterMembers
  | .auth => parseAuthCommand
  | .subscribe => parseSubscribeCommand
  | .psubscribe => parsePSubscribeCommand
  | .publish => parsePublishCommand
  | .publishInternal => parsePublishInternalCommand
  | .pubSubChannels => parsePubSubChannelsCommand
  | .pubSubNumpat => parsePubSubNumpatCommand
  | .pubSubNumsub => parsePubSubNumsubCommand
  | .updateRouting => parseUpdateRoutingCommand
  | .lengthOfPart => parseLengthOfPartCommand
  | .put => parsePutCommand lib
  | .get => parseGetCommand
  | .del => parseDelCommand
  | .delEntry => parseDelEntryCommand
  | .getEntry => parseGetEntryCommand
  | .putEntry => parsePutEntryCommand
  | .expire => parseExpireCommand lib
  | .pexpire => parsePExpireCommand
  | .destroy => parseDestroyCommand
  | .scan => parseScanCommand lib fuel
  | .incr => parseIncrCommand
  | .decr => parseDecrCommand
  | .getPut => parseGetPutCommand
  | .incrByFloat => parseIncrByFloatCommand lib
  | .lock => parseLockCommand lib
  | .unlock => parseUnlockCommand
  | .lockLease => parseLockLeaseCommand lib
  | .plockLease => parsePLockLeaseCommand
  | .moveFragment => parseMoveFragmentCommand

end Name

/-- The lookup of a handler. -/
def handler (command : Bytes) : Option Name := Name.all.find? fun n => n.text = command

/-- What the server knows about the connection and itself. -/
structure Conn where
  requireAuth : Bool
  authenticated : Bool
  operable : Bool
deriving DecidableEq

/-- `Handler.ServeRESP`: the precondition, and then the handler. -/
def handle (conn : Conn) (parse : List Bytes → Outcome (Command F)) (args : List Bytes) :
    Outcome (Command F) := do
  let command ← arg args 0
  if command = text "pubsub" ∨ command = text "PUBSUB" then
    let _ ← arg args 1
  if command = text "internal.node.updaterouting" ∨ command = text "auth" then parse args
  else if conn.operable then parse args
  else .error .notOperable

/-- `ServeMux.ServeRESP`, up to the command that the parser of the handler gives. -/
def serveRESP (conn : Conn) (fuel : ℕ) (args : List Bytes) : Outcome (Command F) := do
  let command := lib.toLower (← arg args 0)
  if conn.requireAuth ∧ command ≠ text "auth" ∧ conn.authenticated = false then
    .error .authRequired
  else
    match handler command with
    | some n => handle conn (n.parse lib fuel) args
    | none =>
      if command = text "pubsub" then
        if args.length < 2 then .error (.wrongNumber [command])
        else
          let command := command ++ [32] ++ (← arg args 1)
          match handler command with
          | some n => handle conn (n.parse lib fuel) args
          | none => .error (.unknownCommand command)
      else .error (.unknownCommand command)

/-- What the handlers of two commands read at the receiver: the number of its partitions, and
whether `getOrCreateDMap` opens a map. -/
structure Receiver where
  partitionCount : ℕ
  opens : Bytes → Bool

/-- How `scanCommandHandler` and `lengthOfPartCommandHandler` go on: `PartitionByID` gives nil for a
number that no partition has, and a method of it is called. -/
def Receiver.takePartition (r : Receiver) : Command F → Outcome (Command F)
  | .scan s =>
    if r.opens s.dmap = false then .error (.dmap s.dmap)
    else if s.partID < r.partitionCount then .ok (.scan s)
    else .panics
  | .lengthOfPart partID replica =>
    if partID < r.partitionCount then .ok (.lengthOfPart partID replica) else .panics
  | c => .ok c

/-- A request up to its parsed command and, if that has the number of a partition, to the
partition. -/
def Receiver.serve (r : Receiver) (conn : Conn) (fuel : ℕ) (args : List Bytes) :
    Outcome (Command F) :=
  serveRESP lib conn fuel args >>= r.takePartition

end

end OlricStack.Wire
