import OlricStack.Wire.Command

/-!
# What arrives

Every request, from `Command.args` through the server of another node (`serve_args`).  It is read
back as it was sent, but for the commands that `Command.Plain` leaves out (`arrives_iff`).
-/

namespace OlricStack.Wire

open Node

variable {F : Type} {lib : Library F}

/-! ## The rules of outcomes -/

@[simp] theorem pure_eq {α : Type} (a : α) : (pure a : Outcome α) = .ok a := rfl

@[simp] theorem ok_bind {α β : Type} (a : α) (f : α → Outcome β) : (Outcome.ok a >>= f) = f a := rfl

@[simp] theorem error_bind {α β : Type} (e : RequestError) (f : α → Outcome β) :
    (Outcome.error e >>= f) = .error e := rfl

@[simp] theorem panics_bind {α β : Type} (f : α → Outcome β) :
    (Outcome.panics >>= f) = .panics := rfl

@[simp] theorem runs_bind {α β : Type} (f : α → Outcome β) :
    (Outcome.runs >>= f) = .runs := rfl

@[simp] theorem arg_zero (a : Bytes) (args : List Bytes) : arg (a :: args) 0 = .ok a := rfl

@[simp] theorem arg_succ (a : Bytes) (args : List Bytes) (i : ℕ) :
    arg (a :: args) (i + 1) = arg args i := rfl

@[simp] theorem arg_nil (i : ℕ) : arg [] i = .panics := rfl

theorem number_some {α : Type} {parse : Bytes → Option α} {a : Bytes} {n : α}
    (h : parse a = some n) : number parse a = .ok n := by
  rw [number, h]

theorem need_le {α : Type} {n : ℕ} {args : List Bytes} (le : n ≤ args.length) (k : Outcome α) :
    need n args k = k := if_neg (Nat.not_lt.2 le)

/-! ## Dispatch -/

/-- The connection is let through. -/
structure Conn.Open (conn : Conn) : Prop where
  operable : conn.operable = true
  authenticated : conn.requireAuth = true → conn.authenticated = true

theorem toLower_text (lib : Library F) {name : Bytes} (small : Ascii name)
    (lower : name.map lowerByte = name) : lib.toLower name = name := by
  rw [lib.toLower_ascii name small, lower]

theorem toUpper_text (lib : Library F) {name : Bytes} (small : Ascii name)
    (upper : name.map upperByte = name) : lib.toUpper name = name := by
  rw [lib.toUpper_ascii name small, upper]

theorem Name.mem_all (n : Name) : n ∈ Name.all := by
  cases n <;> decide

/-- The names are different, in lower case, and none is the first of two words. -/
theorem name_facts : ∀ n ∈ Name.all, handler n.text = some n ∧ Ascii n.text ∧
    n.text.map lowerByte = n.text ∧ n.text ≠ text "pubsub" ∧ n.text ≠ text "PUBSUB" := by
  decide +kernel

theorem handler_text (n : Name) : handler n.text = some n := (name_facts n n.mem_all).1

theorem toLower_name (lib : Library F) (n : Name) : lib.toLower n.text = n.text :=
  toLower_text lib (name_facts n n.mem_all).2.1 (name_facts n n.mem_all).2.2.1

theorem name_ne_pubsub (n : Name) : n.text ≠ text "pubsub" ∧ n.text ≠ text "PUBSUB" :=
  (name_facts n n.mem_all).2.2.2

/-- A request by a registered name goes to its parser. -/
theorem serve_named {conn : Conn} (admitted : conn.Open) (fuel : ℕ) (n : Name) (rest : List Bytes) :
    serveRESP lib conn fuel (n.text :: rest) = n.parse lib fuel (n.text :: rest) := by
  have refused :
      ¬ (conn.requireAuth = true ∧ n.text ≠ text "auth" ∧ conn.authenticated = false) := by
    rintro ⟨required, -, missing⟩
    rw [admitted.authenticated required] at missing
    cases missing
  rw [serveRESP, arg_zero, ok_bind, toLower_name]
  dsimp only
  rw [if_neg refused, handler_text]
  simp [handle, name_ne_pubsub, admitted.operable]

/-! ## Numbers -/

/-- A number of type `int64`. -/
def Int64 (n : ℤ) : Prop := -9223372036854775808 ≤ n ∧ n < 9223372036854775808

instance (n : ℤ) : Decidable (Int64 n) := inferInstanceAs (Decidable (_ ∧ _))

theorem number_int64 {n : ℤ} (h : Int64 n) :
    number Decimal.parseInt64 (Decimal.formatInt n) = .ok n :=
  number_some (Decimal.parseInt64_formatInt h.1 h.2)

theorem number_uint64 {n : ℕ} (h : n < 18446744073709551616) :
    number Decimal.parseUint64 (Decimal.formatNat n) = .ok n :=
  number_some (Decimal.parseUint64_formatNat h)

theorem number_float (x : F) : number lib.parseFloat (lib.formatFloat x) = .ok x :=
  number_some (lib.parse_format x)

theorem tmod_millisecond (d : ℤ) : (d.tmod millisecond).natAbs < 1000000 ∧
    (0 ≤ d → 0 ≤ d.tmod millisecond) ∧ (d ≤ 0 → d.tmod millisecond ≤ 0) := by
  refine ⟨?_, Int.tmod_nonneg millisecond, fun nonpos => ?_⟩
  · rw [Int.natAbs_tmod]
    exact Nat.mod_lt _ (by decide)
  · have flip := Int.tmod_nonneg millisecond (Int.neg_nonneg_of_nonpos nonpos)
    rw [Int.neg_tmod] at flip
    omega

theorem int64_tdiv {d : ℤ} (h : Int64 d) :
    Int64 (d.tdiv millisecond) ∧ Int64 (d.tdiv millisecond * millisecond) := by
  obtain ⟨ge, lt⟩ := h
  have parts : 1000000 * d.tdiv millisecond + d.tmod millisecond = d :=
    Int.mul_tdiv_add_tmod d millisecond
  obtain ⟨small, nonneg, nonpos⟩ := tmod_millisecond d
  have product : d.tdiv millisecond * millisecond = 1000000 * d.tdiv millisecond :=
    Int.mul_comm _ _
  rw [product]
  unfold Int64
  omega

/-- The milliseconds of a duration are its nanoseconds again exactly when nothing was cut off. -/
theorem mul64_tdiv {d : ℤ} (h : Int64 d) :
    mul64 (d.tdiv millisecond) millisecond = d ↔ millisecond ∣ d := by
  obtain ⟨ge, lt⟩ := (int64_tdiv h).2
  have same : mul64 (d.tdiv millisecond) millisecond = d.tdiv millisecond * millisecond :=
    Int.bmod_eq_of_le (by omega) (by omega)
  rw [same]
  exact ⟨fun eq => ⟨_, eq.symm.trans (Int.mul_comm _ _)⟩, Int.tdiv_mul_cancel⟩

/-! ## Options -/

section

variable (p : Put F) (rest : List Bytes)

/-- An option that is not set is not sent. -/
theorem putOptions_flag {name : String} {set : Put F → Put F}
    (upper : lib.toUpper (text name) = text name) (known : putFlag (text name) = some set)
    (sent : Bool) : putOptions lib p (flag sent name ++ rest) =
      putOptions lib (if sent then set p else p) rest := by
  cases sent with
  | false => rfl
  | true =>
    rw [flag, if_pos rfl, List.singleton_append, putOptions.eq_def]
    simp only [upper, known, if_true]

theorem putOptions_value {name : String} {read : Bytes → Outcome (Put F → Put F)}
    {set : Put F → Put F} {value : Bytes} (upper : lib.toUpper (text name) = text name)
    (other : (putFlag (text name) : Option (Put F → Put F)) = none)
    (known : putValue lib (text name) = some read) (parsed : read value = .ok set) :
    putOptions lib p (text name :: value :: rest) = putOptions lib (set p) rest := by
  rw [putOptions.eq_def]
  simp only [upper, other, known, parsed]
  rfl

theorem putOptions_int {name : String} {set : ℤ → Put F → Put F}
    (upper : lib.toUpper (text name) = text name)
    (other : (putFlag (text name) : Option (Put F → Put F)) = none)
    (known : putValue lib (text name) = some fun value => do
      let n ← number Decimal.parseInt64 value
      return set n)
    {n : ℤ} (h : Int64 n) (unset : set 0 p = p) :
    putOptions lib p (intOption name n ++ rest) = putOptions lib (set n p) rest := by
  unfold intOption
  split_ifs with sent
  · exact putOptions_value p rest upper other known (by rw [number_int64 h]; rfl)
  · rw [not_not] at sent
    rw [sent, unset, List.nil_append]

theorem putOptions_float [DecidableEq F] {name : String} {set : F → Put F → Put F}
    (upper : lib.toUpper (text name) = text name)
    (other : (putFlag (text name) : Option (Put F → Put F)) = none)
    (known : putValue lib (text name) = some fun value => do
      let x ← number lib.parseFloat value
      return set x)
    (x : F) (unset : set lib.zero p = p) :
    putOptions lib p (floatOption lib name x ++ rest) = putOptions lib (set x p) rest := by
  unfold floatOption
  split_ifs with sent
  · exact putOptions_value p rest upper other known (by rw [number_float]; rfl)
  · rw [not_not] at sent
    rw [sent, unset, List.nil_append]

theorem parsePutCommand_command [DecidableEq F] (hpx : Int64 p.px) (hpxat : Int64 p.pxat) :
    parsePutCommand lib (p.command lib) = .ok (.put p) := by
  have upper {name : Bytes} := @toUpper_text F lib name
  have long : 4 ≤ (p.command lib).length := by simp [Put.command]
  rw [parsePutCommand, need_le long, Put.command]
  simp only [List.cons_append, List.nil_append, arg_succ, arg_zero, ok_bind, List.drop_succ_cons,
    List.drop_zero]
  rw [putOptions_float _ _ (upper (by decide) (by decide)) rfl rfl _ rfl,
    putOptions_int _ _ (upper (by decide) (by decide)) rfl rfl hpx rfl,
    putOptions_float _ _ (upper (by decide) (by decide)) rfl rfl _ rfl,
    putOptions_int _ _ (upper (by decide) (by decide)) rfl rfl hpxat rfl,
    putOptions_flag _ _ (upper (by decide) (by decide)) rfl,
    ← List.append_nil (flag p.xx "XX"), putOptions_flag _ _ (upper (by decide) (by decide)) rfl]
  obtain ⟨dmap, key, value, ex, px, exat, pxat, nx, xx⟩ := p
  cases nx <;> cases xx <;> rfl

end

/-- One round of the loop. -/
theorem scanOptions_cons (lib : Library F) (fuel : ℕ) (s : Scan) (option : Bytes)
    (rest : List Bytes) : scanOptions lib (fuel + 1) s (option :: rest) =
      match scanValue (lib.toUpper option), rest with
      | some _, [] => .panics
      | some read, value :: rest =>
        (read value).bind fun set => scanOptions lib fuel (set s) rest
      | none, rest =>
        if lib.toUpper option = text "RC" then scanOptions lib fuel { s with replica := true } rest
        else scanOptions lib fuel s (option :: rest) := rfl

/-- More fuel does not change a result. -/
theorem scanOptions_succ {fuel : ℕ} {s : Scan} {args : List Bytes}
    (h : scanOptions lib fuel s args ≠ .runs) :
    scanOptions lib (fuel + 1) s args = scanOptions lib fuel s args := by
  induction fuel generalizing s args with
  | zero => exact absurd rfl h
  | succ fuel ih =>
    cases args with
    | nil => rfl
    | cons option rest =>
      rw [scanOptions_cons] at h
      rw [scanOptions_cons lib (fuel + 1), scanOptions_cons lib fuel]
      cases known : scanValue (lib.toUpper option) with
      | none =>
        simp only [known] at h ⊢
        split_ifs at h ⊢ with rc
        · exact ih h
        · exact ih h
      | some read =>
        cases rest with
        | nil => rfl
        | cons value rest =>
          simp only [known] at h ⊢
          cases parsed : read value with
          | ok set =>
            rw [parsed] at h
            exact ih h
          | error | panics | runs => rfl

section

variable (s : Scan) {rest : List Bytes} {fuel : ℕ} {s' : Scan}

theorem scanOptions_value {name : String} {read : Bytes → Outcome (Scan → Scan)}
    {set : Scan → Scan} {value : Bytes} (upper : lib.toUpper (text name) = text name)
    (known : scanValue (text name) = some read) (parsed : read value = .ok set)
    (h : scanOptions lib fuel (set s) rest = .ok s') :
    scanOptions lib (fuel + 1) s (text name :: value :: rest) = .ok s' := by
  rw [scanOptions_cons]
  simp only [upper, known, parsed]
  exact h

theorem scanOptions_unsent (h : scanOptions lib fuel s rest = .ok s') :
    scanOptions lib (fuel + 1) s rest = .ok s' := by
  rw [scanOptions_succ (by rw [h]; nofun), h]

end

theorem scanOptions_rc (lib : Library F) (fuel : ℕ) (s : Scan) (unset : s.replica = false)
    (set : Bool) :
    scanOptions lib (fuel + 2) s (flag set "RC") = .ok { s with replica := set } := by
  cases set with
  | false =>
    obtain ⟨partID, dmap, cursor, count, matchPattern, replica⟩ := s
    cases unset
    rfl
  | true =>
    rw [flag, if_pos rfl, scanOptions_cons, toUpper_text lib (by decide) (by decide)]
    rfl

theorem scanOptions_count (lib : Library F) (fuel : ℕ) (s : Scan) (uncounted : s.count = 0)
    (unset : s.replica = false) {count : ℤ} (h : Int64 count) (set : Bool) :
    scanOptions lib (fuel + 3) s (intOption "COUNT" count ++ flag set "RC") =
      .ok { s with count := count, replica := set } := by
  unfold intOption
  split_ifs with sent
  · refine scanOptions_value s (toUpper_text lib (by decide) (by decide)) rfl
      (by rw [number_int64 h]; rfl) ?_
    exact scanOptions_rc lib fuel { s with count := count } unset set
  · rw [not_not] at sent
    rw [sent, ← uncounted]
    exact scanOptions_unsent s (scanOptions_rc lib fuel s unset set)

theorem parseScanCommand_command (lib : Library F) (s : Scan) {fuel : ℕ} (enough : 4 ≤ fuel)
    (hpart : s.partID < 18446744073709551616) (hcursor : s.cursor < 18446744073709551616)
    (hcount : Int64 s.count) : parseScanCommand lib fuel s.command =
      .ok (.scan (if s.count = 0 then { s with count := defaultScanCount } else s)) := by
  obtain ⟨fuel, rfl⟩ := Nat.exists_eq_add_of_le' enough
  have long : 4 ≤ s.command.length := by simp [Scan.command]
  rw [parseScanCommand, need_le long, Scan.command]
  simp only [List.cons_append, List.nil_append, arg_succ, arg_zero, ok_bind, List.drop_succ_cons,
    List.drop_zero, number_uint64 hpart, number_uint64 hcursor]
  have read : scanOptions lib (fuel + 4) ⟨s.partID, s.dmap, s.cursor, 0, [], false⟩
      ((if s.matchPattern ≠ [] then [text "MATCH", s.matchPattern] else []) ++
        (intOption "COUNT" s.count ++ flag s.replica "RC")) = .ok s := by
    split_ifs with sent
    · refine scanOptions_value _ (toUpper_text lib (by decide) (by decide)) rfl rfl ?_
      exact scanOptions_count lib fuel ⟨s.partID, s.dmap, s.cursor, 0, s.matchPattern, false⟩ rfl
        rfl hcount s.replica
    · rw [not_not] at sent
      refine scanOptions_unsent _ ((scanOptions_count lib fuel _ rfl rfl hcount s.replica).trans ?_)
      rw [← sent]
  rw [read]
  rfl

/-! ## Every command -/

/-- The numbers fit their types. -/
def Command.InRange : Command F → Prop
  | .put p => Int64 p.px ∧ Int64 p.pxat
  | .pexpire _ _ milliseconds => Int64 milliseconds
  | .scan s => s.partID < 18446744073709551616 ∧ s.cursor < 18446744073709551616 ∧ Int64 s.count
  | .incr _ _ delta | .decr _ _ delta => Int64 delta
  | .lock l => Int64 l.px
  | .plockLease _ _ _ timeout => Int64 timeout
  | .updateRouting _ coordinatorID => coordinatorID < 18446744073709551616
  | .lengthOfPart partID _ => partID < 18446744073709551616
  | _ => True

/-- The request that the receiver reads, for the commands that it does not read as they are. -/
def Command.received [DecidableEq F] (lib : Library F) (c : Command F) : Outcome (Command F) :=
  match c with
  | .del _ [] | .subscribe [] | .psubscribe [] | .pubSubNumpat | .pubSubNumsub [] =>
    .error (.wrongNumber (c.args lib))
  | .pexpire dmap key d => .ok (.pexpire dmap key (mul64 (d.tdiv millisecond) millisecond))
  | .expire dmap key d => .ok (.expire dmap key (lib.duration (lib.seconds d)))
  | .scan s => .ok (.scan (if s.count = 0 then { s with count := defaultScanCount } else s))
  -- only one option is read
  | .lock l => .ok (.lock (if l.ex ≠ lib.zero then { l with px := 0 } else l))
  | .psubscribe patterns => .ok (.subscribe patterns)
  -- the arguments are read as if the name were two of them
  | .pubSubChannels pattern =>
    if pattern = [] then .error (.wrongNumber (c.args lib)) else .ok (.pubSubChannels [])
  | .pubSubNumsub (_ :: channels) => .ok (.pubSubNumsub channels)
  | c => .ok c

theorem parseLockCommand_command [DecidableEq F] (l : Lock F) (h : Int64 l.px) :
    parseLockCommand lib (l.command lib) = Command.received lib (.lock l) := by
  have ex := toUpper_text lib (show Ascii (text "EX") by decide) (by decide)
  have px := toUpper_text lib (show Ascii (text "PX") by decide) (by decide)
  have other : text "EX" ≠ text "PX" := by decide
  obtain ⟨dmap, key, deadline, lex, lpx⟩ := l
  unfold Lock.command floatOption intOption Command.received
  by_cases hex : lex = lib.zero <;> by_cases hpx : lpx = 0
  · simp [parseLockCommand, need, number_float, hex, hpx]
  · simp [parseLockCommand, need, number_float, number_int64 h, px, hex, hpx]
  · simp [parseLockCommand, need, number_float, ex, other, hex, hpx]
  · simp [parseLockCommand, need, number_float, ex, other, hex, hpx]

/-- Every request of a command whose numbers fit. -/
theorem serve_args [DecidableEq F] {conn : Conn} (admitted : conn.Open) {fuel : ℕ}
    (enough : 4 ≤ fuel) {c : Command F} (range : c.InRange) :
    serveRESP lib conn fuel (c.args lib) = c.received lib := by
  have served := @serve_named F lib conn admitted fuel
  cases c with
  | put p =>
    refine (served .put _).trans ?_
    exact parsePutCommand_command p range.1 range.2
  | putEntry dmap key value => exact served .putEntry _
  | get dmap key raw =>
    refine (served .get _).trans ?_
    cases raw <;> rfl
  | getEntry dmap key replica =>
    refine (served .getEntry _).trans ?_
    cases replica <;> rfl
  | del dmap keys =>
    refine (served .del _).trans ?_
    cases keys <;> rfl
  | delEntry dmap key replica =>
    refine (served .delEntry _).trans ?_
    cases replica <;> rfl
  | pexpire dmap key milliseconds =>
    refine (served .pexpire _).trans ?_
    simp [Name.parse, parsePExpireCommand, need, number_int64 (int64_tdiv range).1,
      Command.received]
  | expire dmap key seconds =>
    refine (served .expire _).trans ?_
    simp [Name.parse, parseExpireCommand, need, number_float, Command.received]
  | destroy dmap localOnly =>
    refine (served .destroy _).trans ?_
    cases localOnly <;> rfl
  | scan s =>
    refine (served .scan _).trans ?_
    exact parseScanCommand_command lib s enough range.1 range.2.1 range.2.2
  | incr dmap key delta =>
    refine (served .incr _).trans ?_
    simp [Name.parse, parseIncrCommand, need, number_int64 range, Command.received]
  | decr dmap key delta =>
    refine (served .decr _).trans ?_
    simp [Name.parse, parseDecrCommand, need, number_int64 range, Command.received]
  | getPut dmap key value raw =>
    refine (served .getPut _).trans ?_
    cases raw <;> rfl
  | incrByFloat dmap key delta =>
    refine (served .incrByFloat _).trans ?_
    simp [Name.parse, parseIncrByFloatCommand, need, number_float, Command.received]
  | lock l =>
    refine (served .lock _).trans ?_
    exact parseLockCommand_command l range
  | unlock dmap key token => exact served .unlock _
  | lockLease dmap key token timeout =>
    refine (served .lockLease _).trans ?_
    simp [Name.parse, parseLockLeaseCommand, need, number_float, Command.received]
  | plockLease dmap key token timeout =>
    refine (served .plockLease _).trans ?_
    simp [Name.parse, parsePLockLeaseCommand, need, number_int64 range, Command.received]
  | ping message =>
    refine (served .ping _).trans ?_
    cases message <;> rfl
  | stats collectRuntime =>
    refine (served .stats _).trans ?_
    cases collectRuntime <;> rfl
  | auth password => exact served .auth _
  | moveFragment payload => exact served .moveFragment _
  | updateRouting payload coordinatorID =>
    refine (served .updateRouting _).trans ?_
    simp [Name.parse, parseUpdateRoutingCommand, need, number_uint64 range, Command.received]
  | lengthOfPart partID replica =>
    refine (served .lengthOfPart _).trans ?_
    cases replica <;>
      simp [Name.parse, parseLengthOfPartCommand, parseFlag, need, number_uint64 range,
        Command.received, flag]
  | clusterRoutingTable => exact served .clusterRoutingTable _
  | clusterMembers => exact served .clusterMembers _
  | publish channel message => exact served .publish _
  | publishInternal channel message => exact served .publishInternal _
  | subscribe channels =>
    refine (served .subscribe _).trans ?_
    cases channels <;> rfl
  | psubscribe patterns =>
    refine (served .subscribe _).trans ?_
    cases patterns <;> rfl
  | pubSubChannels pattern =>
    refine (served .pubSubChannels _).trans ?_
    cases pattern <;> rfl
  | pubSubNumpat => exact served .pubSubNumpat _
  | pubSubNumsub channels =>
    refine (served .pubSubNumsub _).trans ?_
    cases channels <;> rfl

/-- What is left out: empty lists, a part of a millisecond, the count that stands for the default, a
second option of `Lock`, `PSubscribe`, which is sent under the name of `Subscribe`, and the commands
with two words, whose parsers count the words as arguments. -/
def Command.Plain (lib : Library F) : Command F → Prop
  | .del _ names | .subscribe names => names ≠ []
  | .pexpire _ _ d => millisecond ∣ d
  | .expire _ _ d => lib.duration (lib.seconds d) = d
  | .scan s => s.count ≠ 0
  | .lock l => l.ex = lib.zero ∨ l.px = 0
  | .psubscribe _ | .pubSubChannels _ | .pubSubNumpat | .pubSubNumsub _ => False
  | _ => True

theorem received_eq_iff [DecidableEq F] {c : Command F} (range : c.InRange) :
    c.received lib = .ok c ↔ c.Plain lib := by
  cases c with
  | del dmap names | subscribe names =>
    cases names <;> simp [Command.received, Command.Plain]
  | pexpire dmap key d => simpa [Command.received, Command.Plain] using mul64_tdiv range
  | expire dmap key d => simp [Command.received, Command.Plain]
  | scan s =>
    obtain ⟨partID, dmap, cursor, count, matchPattern, replica⟩ := s
    by_cases zero : count = 0 <;> simp [Command.received, Command.Plain, zero, defaultScanCount]
  | lock l =>
    obtain ⟨dmap, key, deadline, ex, px⟩ := l
    by_cases zero : ex = lib.zero <;> simp [Command.received, Command.Plain, zero, eq_comm]
  | psubscribe patterns => cases patterns <;> simp [Command.received, Command.Plain]
  | pubSubChannels pattern => cases pattern <;> simp [Command.received, Command.Plain]
  | pubSubNumpat => simp [Command.received, Command.Plain]
  | pubSubNumsub channels => cases channels <;> simp [Command.received, Command.Plain]
  | _ => simp [Command.received, Command.Plain]

/-- A request is read as it was sent exactly when its command is plain. -/
theorem arrives_iff {F : Type} [DecidableEq F] (lib : Library F) {conn : Conn}
    (admitted : conn.Open) {fuel : ℕ} (enough : 4 ≤ fuel) {c : Command F} (range : c.InRange) :
    serveRESP lib conn fuel (c.args lib) = .ok c ↔ c.Plain lib := by
  rw [serve_args admitted enough range, received_eq_iff range]

/-- A library whose numbers of type `float64` are whole. -/
def wholeLibrary : Library { n : ℤ // Int64 n } where
  toLower := List.map lowerByte
  toLower_ascii _ _ := rfl
  toUpper := List.map upperByte
  toUpper_ascii _ _ := rfl
  zero := ⟨0, by decide⟩
  formatFloat x := Decimal.formatInt x
  parseFloat a := (Decimal.parseInt64 a).bind fun n => if h : Int64 n then some ⟨n, h⟩ else none
  parse_format x := by
    rw [Decimal.parseInt64_formatInt x.2.1 x.2.2]
    exact dif_pos x.2
  seconds d := if h : Int64 (d.tdiv second) then ⟨_, h⟩ else ⟨0, by decide⟩
  duration x := mul64 x second

/-- One and a half milliseconds do not arrive, and two do. -/
theorem arrives_iff_pexpire :
    (serveRESP wholeLibrary ⟨true, true, true⟩ 4
        ((Command.pexpire (text "d") (text "k") 1500000).args wholeLibrary) ≠
      .ok (.pexpire (text "d") (text "k") 1500000)) ∧
    serveRESP wholeLibrary ⟨true, true, true⟩ 4
        ((Command.pexpire (text "d") (text "k") 2000000).args wholeLibrary) =
      .ok (.pexpire (text "d") (text "k") 2000000) := by
  have admitted : Conn.Open ⟨true, true, true⟩ := ⟨rfl, fun _ => rfl⟩
  constructor
  · exact (arrives_iff wholeLibrary admitted le_rfl (c := .pexpire _ _ 1500000)
      ⟨by decide, by decide⟩).not.2 (by simp [Command.Plain, millisecond])
  · exact (arrives_iff wholeLibrary admitted le_rfl (c := .pexpire _ _ 2000000)
      ⟨by decide, by decide⟩).2 ⟨2, rfl⟩

end OlricStack.Wire
