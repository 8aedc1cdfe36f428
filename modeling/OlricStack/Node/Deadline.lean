import OlricStack.Lib.Text
import OlricStack.Node.Replication

/-!
# Deadlines, from the command to the stored entry

SET with EX or PX and EXPIRE as `resp_server.go` takes them, down to the entry that the owner of the
key stores, whether the command comes to the owner or is sent on to it.  A duration passes through
an `int64` of nanoseconds twice.  The stored deadline is right exactly when the sum of clock and
duration fits there (`deadline_exact_iff`); beyond that SET may drop the deadline and EXPIRE may put
it into the past (`large_duration_is_dropped`).
-/

namespace OlricStack.Node

/-! ## Durations -/

/-- The product of two `int64`. -/
def mul64 (a b : ℤ) : ℤ := (a * b).bmod 18446744073709551616

/-- `time.Second` and `time.Millisecond`. -/
def second : ℤ := 1000000000

/-- `time.Millisecond` in nanoseconds. -/
def millisecond : ℤ := 1000000

/-! ## Commands -/

/-- The errors that the handlers answer. -/
inductive CommandError
  | wrongNumber
  | missingValue (option : Bytes)
  | invalidValue (option : Bytes)
  | unsupportedOption (option : Bytes)
  | invalidExpireTime
  | leaseExpired
  | ttlNotPositive
deriving DecidableEq, Repr

/-- `strings.ToUpper`, of the letters that the options are compared by. -/
def upper (s : Bytes) : Bytes := s.map fun b => if 97 ≤ b ∧ b ≤ 122 then b - 32 else b

/-- The text `EX`. -/
def optionEX : Bytes := [69, 88]

/-- The text `PX`. -/
def optionPX : Bytes := [80, 88]

/-- The loop of `parseSetTTL`; `ttl` is what the options so far have set. -/
def parseSetTTL (ttl : ℤ) : List Bytes → Except CommandError ℤ
  | [] => .ok ttl
  | [option] =>
    if upper option = optionEX ∨ upper option = optionPX then .error (.missingValue (upper option))
    else .error (.unsupportedOption (upper option))
  | option :: value :: rest =>
    if upper option = optionEX ∨ upper option = optionPX then
      match Decimal.parseInt64 value with
      | none => .error (.invalidValue (upper option))
      | some n =>
        if n ≤ 0 then .error (.invalidValue (upper option))
        else parseSetTTL (mul64 n (if upper option = optionEX then second else millisecond)) rest
    else .error (.unsupportedOption (upper option))

/-- What a command asks of the dmap. -/
structure PutRequest where
  key : Bytes
  value : Bytes
  putConfig : PutConfig
  timeout : ℤ
deriving DecidableEq, Repr

/-- `olricDMap.Set`: an option only for a positive duration. -/
def setRequest (key value : Bytes) (ttl : ℤ) : PutRequest :=
  ⟨key, value, ⟨false, false, none, if ttl > 0 then some ttl else none, none, none, false⟩, 0⟩

/-- `DMap.Expire`. -/
def expireRequest (key : Bytes) (ttl : ℤ) : PutRequest :=
  ⟨key, [], ⟨false, false, none, none, none, none, true⟩, ttl⟩

/-- `handleSet` and `Service.Set`; `serving` is what the lease says. -/
def handleSet (serving : Bool) : List Bytes → Except CommandError PutRequest
  | _ :: key :: value :: options => do
    let ttl ← parseSetTTL 0 options
    if serving then return setRequest key value ttl else .error .leaseExpired
  | _ => .error .wrongNumber

/-- `handleExpire` and `Service.Expire`. -/
def handleExpire (serving : Bool) : List Bytes → Except CommandError PutRequest
  | [_, key, arg] =>
    match Decimal.parseInt64 arg with
    | none => .error .invalidExpireTime
    | some seconds =>
      if seconds ≤ 0 then .error .invalidExpireTime
      else
        let ttl := mul64 seconds second
        if ttl ≤ 0 then .error .ttlNotPositive
        else if serving then .ok (expireRequest key ttl)
        else .error .leaseExpired
  | _ => .error .wrongNumber

/-! ## The owner -/

/-- The request as the owner gets it from another member: `writePutCommand` sends milliseconds, and
the handlers of PUT and PEXPIRE take no duration for zero. -/
def PutRequest.forwarded (r : PutRequest) : PutRequest :=
  if r.putConfig.onlyUpdateTTL then
    { r with timeout := mul64 (r.timeout.tdiv millisecond) millisecond }
  else
    { r with putConfig := { r.putConfig with
        px := (r.putConfig.px.map fun ns => ns.tdiv millisecond).bind fun ms =>
          if ms ≠ 0 then some (mul64 ms millisecond) else none } }

/-- The request reaches the owner directly or through another member. -/
def PutRequest.routed (forward : Bool) (r : PutRequest) : PutRequest :=
  if forward then r.forwarded else r

/-- A call of `putOnCluster` for the request, on a dmap without a deadline of its own. -/
structure PutCall.Serves (c : PutCall) (r : PutRequest) : Prop where
  putConfig : c.env.putConfig = r.putConfig
  timeout : c.env.timeout = r.timeout
  noDefault : ∀ d ∈ c.config.dmap, d.ttlDuration = 0

theorem PutCall.Serves.ttl {c : PutCall} {r : PutRequest} (serves : c.Serves r) :
    c.prepareEntry.ttl = prepareTTL r.putConfig r.timeout c.io.preparedAt := by
  have timeout : c.timeout = r.timeout := by
    rw [← serves.timeout, PutCall.timeout]
    split
    · next d hd => rw [if_neg fun h => h.1 (serves.noDefault d hd)]
    · rfl
  rw [PutCall.prepareEntry, serves.putConfig, timeout]

/-! ## Arithmetic -/

/-- A sum that does not fit comes out negative. -/
theorem addMs_of_nonneg {a b : ℤ} (ha : 0 ≤ a) (hb : 0 ≤ b) (lt : a < 9223372036854775808)
    (lt' : b < 9223372036854775808) : addMs a b = if a + b < 9223372036854775808 then
      (a + b) / 1000000 else (a + b - 18446744073709551616).tdiv 1000000 := by
  have wrapped : (a + b).bmod 18446744073709551616 =
      if a + b < 9223372036854775808 then a + b else a + b - 18446744073709551616 := by
    unfold Int.bmod
    dsimp only
    split_ifs <;> omega
  rw [addMs, wrapped]
  split_ifs
  · exact Int.tdiv_eq_ediv_of_nonneg (by omega)
  · rfl

theorem tdiv_nonpos {a : ℤ} (h : a ≤ 0) : a.tdiv 1000000 ≤ 0 := by
  have nonneg : 0 ≤ (-a).tdiv 1000000 := Int.tdiv_nonneg (by omega) (by decide)
  rw [Int.neg_tdiv] at nonneg
  omega

/-- A product that does not fit comes out at least `2 ^ 64` too small. -/
theorem mul64_cases {a b : ℤ} (h : 0 ≤ a * b) :
    a * b < 9223372036854775808 ∧ mul64 a b = a * b ∨
      9223372036854775808 ≤ a * b ∧ mul64 a b ≤ a * b - 18446744073709551616 ∧
        mul64 a b < 9223372036854775808 := by
  unfold mul64
  generalize a * b = x at h ⊢
  unfold Int.bmod
  dsimp only
  split_ifs <;> omega

/-- The nanoseconds that reach the owner. -/
def routedDuration (forward : Bool) (ns : ℤ) : ℤ :=
  if forward then mul64 (ns.tdiv millisecond) millisecond else ns

theorem routedDuration_spec (forward : Bool) {ns : ℤ} (pos : 0 < ns)
    (lt : ns < 9223372036854775808) :
    0 ≤ routedDuration forward ns ∧ routedDuration forward ns ≤ ns ∧
      (1000000 ∣ ns → routedDuration forward ns = ns) := by
  unfold routedDuration
  split_ifs
  · rw [Int.tdiv_eq_ediv_of_nonneg pos.le, millisecond]
    have whole : mul64 (ns / 1000000) 1000000 = ns / 1000000 * 1000000 := by
      rcases mul64_cases (a := ns / 1000000) (b := 1000000) (by omega) with ⟨-, h⟩ | ⟨h, -⟩
      · exact h
      · omega
    rw [whole]
    omega
  · exact ⟨pos.le, le_rfl, fun _ => rfl⟩

/-- The deadline that the owner computes at `now`. -/
def PutRequest.deadline (r : PutRequest) (now : ℤ) : ℤ := prepareTTL r.putConfig r.timeout now

theorem deadline_setRequest (forward : Bool) (key value : Bytes) {ttl : ℤ} (pos : 0 < ttl)
    (lt : ttl < 9223372036854775808) (now : ℤ) :
    ((setRequest key value ttl).routed forward).deadline now =
      if routedDuration forward ttl = 0 then 0 else addMs (routedDuration forward ttl) now := by
  cases forward with
  | false =>
    simp [PutRequest.routed, PutRequest.deadline, setRequest, prepareTTL, routedDuration, pos,
      pos.ne']
  | true =>
    have nonneg : 0 ≤ ttl.tdiv millisecond := Int.tdiv_nonneg pos.le (by decide)
    have le : ttl.tdiv millisecond * millisecond ≤ ttl := by
      rw [Int.tdiv_eq_ediv_of_nonneg pos.le]
      exact Int.ediv_mul_le ttl (by decide)
    have zero : mul64 (ttl.tdiv millisecond) millisecond = 0 ↔ ttl.tdiv millisecond = 0 := by
      unfold millisecond at le nonneg ⊢
      rcases mul64_cases (a := ttl.tdiv 1000000) (b := 1000000) (by omega) with ⟨-, h⟩ | ⟨h, -⟩ <;>
        omega
    by_cases none : ttl.tdiv millisecond = 0
    · simp [PutRequest.routed, PutRequest.forwarded, PutRequest.deadline, setRequest, prepareTTL,
        routedDuration, pos, none, mul64]
    · simp [PutRequest.routed, PutRequest.forwarded, PutRequest.deadline, setRequest, prepareTTL,
        routedDuration, pos, none, zero]

theorem deadline_setRequest_of_nonpos (forward : Bool) (key value : Bytes) {ttl : ℤ}
    (nonpos : ttl ≤ 0) (now : ℤ) :
    ((setRequest key value ttl).routed forward).deadline now = 0 := by
  cases forward <;>
    simp [PutRequest.routed, PutRequest.forwarded, PutRequest.deadline, setRequest, prepareTTL,
      not_lt.2 nonpos]

theorem deadline_expireRequest (forward : Bool) (key : Bytes) (ttl now : ℤ) :
    ((expireRequest key ttl).routed forward).deadline now =
      if routedDuration forward ttl = 0 then 0 else addMs (routedDuration forward ttl) now := by
  cases forward <;>
    simp [PutRequest.routed, PutRequest.forwarded, PutRequest.deadline, expireRequest, prepareTTL,
      routedDuration]

/-- What the owner computes from a product that came out positive is right exactly if the sum with
the clock fits. -/
theorem deadline_eq_iff (forward : Bool) {n unit now : ℤ} (pos : 1000000 ≤ n * unit)
    (dvd : 1000000 ∣ n * unit) (wrapped : 0 < mul64 n unit) (nonneg : 0 ≤ now)
    (lt : now < 9223372036854775808) :
    (if routedDuration forward (mul64 n unit) = 0 then 0
      else addMs (routedDuration forward (mul64 n unit)) now) = (now + n * unit) / 1000000 ↔
      now + n * unit < 9223372036854775808 := by
  have product := mul64_cases (a := n) (b := unit) (by omega)
  have small : mul64 n unit < 9223372036854775808 := by
    rcases product with ⟨fits, e⟩ | ⟨-, -, h⟩
    · rwa [e]
    · exact h
  obtain ⟨ge, le, exact⟩ := routedDuration_spec forward wrapped small
  generalize routedDuration forward (mul64 n unit) = d at ge le exact ⊢
  rw [addMs_of_nonneg ge nonneg (by omega) lt]
  have past := tdiv_nonpos (a := d + now - 18446744073709551616) (by omega)
  generalize mul64 n unit = w at product wrapped small le exact
  generalize n * unit = x at pos dvd product ⊢
  rcases product with ⟨-, rfl⟩ | ⟨large, least, -⟩
  · have same := exact dvd
    split_ifs <;> omega
  · split_ifs <;> omega

/-- A deadline after 1970 is read the same way by the owner and by the sidecar, at every instant. -/
theorem expired_agree {ttl : ℤ} (pos : 0 < ttl) {r : EntryRecord} (same : r.ttl = ttl) (t : ℤ) :
    isKeyExpired ttl (t.tdiv 1000000) = recordExpiredAt r (t / 1000000) := by
  have floor : t.tdiv 1000000 ≥ ttl ↔ t / 1000000 ≥ ttl := by
    rcases Int.le_total 0 t with h | h
    · rw [Int.tdiv_eq_ediv_of_nonneg h]
    · have := tdiv_nonpos h
      omega
  rw [isKeyExpired, recordExpiredAt, same, if_neg (not_le.2 pos)]
  simp [pos.ne', floor]

/-! ## From the command to the deadline -/

/-- The commands that set a deadline, with their arguments. -/
inductive Command
  | set (args : List Bytes)
  | expire (args : List Bytes)
deriving DecidableEq, Repr

/-- The handler of a command. -/
def Command.handle (serving : Bool) : Command → Except CommandError PutRequest
  | .set args => handleSet serving args
  | .expire args => handleExpire serving args

/-- The command asks for `n` units of `unit` nanoseconds: with the last option of a SET, or with the
argument of an EXPIRE. -/
inductive Asks : Command → ℤ → ℤ → Prop
  | ex {name key value option arg : Bytes} {options : List Bytes} {ttl n : ℤ}
      (before : parseSetTTL 0 options = .ok ttl) (isEX : upper option = optionEX)
      (parsed : Decimal.parseInt64 arg = some n) :
      Asks (.set (name :: key :: value :: (options ++ [option, arg]))) n second
  | px {name key value option arg : Bytes} {options : List Bytes} {ttl n : ℤ}
      (before : parseSetTTL 0 options = .ok ttl) (isPX : upper option = optionPX)
      (parsed : Decimal.parseInt64 arg = some n) :
      Asks (.set (name :: key :: value :: (options ++ [option, arg]))) n millisecond
  | expire {name key arg : Bytes} {n : ℤ} (parsed : Decimal.parseInt64 arg = some n) :
      Asks (.expire [name, key, arg]) n second

/-- The options before the last pair only have to parse. -/
theorem parseSetTTL_append {ttl ttl' : ℤ} {options : List Bytes}
    (before : parseSetTTL ttl options = .ok ttl') (option arg : Bytes) :
    parseSetTTL ttl (options ++ [option, arg]) = parseSetTTL ttl' [option, arg] := by
  induction ttl, options using parseSetTTL.induct with
  | case1 ttl =>
    cases before
    rfl
  | case2 | case3 | case4 | case5 | case7 => simp_all [parseSetTTL]
  | case6 ttl known value rest isOption n parsed pos ih =>
    rw [parseSetTTL, if_pos isOption, parsed] at before
    rw [List.cons_append, List.cons_append, parseSetTTL, if_pos isOption, parsed]
    dsimp only at before ⊢
    rw [if_neg pos] at before ⊢
    exact ih before

/-- A SET with a positive number ends up with the product for its last option. -/
theorem handleSet_last (name key value : Bytes) {option arg : Bytes} {options : List Bytes}
    {ttl n unit : ℤ}
    (before : parseSetTTL 0 options = .ok ttl)
    (isOption : upper option = optionEX ∧ unit = second ∨
      upper option = optionPX ∧ unit = millisecond)
    (parsed : Decimal.parseInt64 arg = some n) (pos : 0 < n) (serving : Bool) :
    handleSet serving (name :: key :: value :: (options ++ [option, arg])) =
      if serving then .ok (setRequest key value (mul64 n unit)) else .error .leaseExpired := by
  have last : parseSetTTL ttl [option, arg] = .ok (mul64 n unit) := by
    rcases isOption with ⟨isEX, rfl⟩ | ⟨isPX, rfl⟩
    · simp [parseSetTTL, isEX, parsed, not_le.2 pos]
    · have other : optionPX ≠ optionEX := by decide
      simp [parseSetTTL, isPX, parsed, not_le.2 pos, other]
  rw [handleSet, parseSetTTL_append before, last]
  cases serving <;> rfl

theorem handleExpire_positive (name key : Bytes) {arg : Bytes} {n : ℤ}
    (parsed : Decimal.parseInt64 arg = some n) (pos : 0 < n) (serving : Bool) :
    handleExpire serving [name, key, arg] =
      if mul64 n second ≤ 0 then .error .ttlNotPositive
      else if serving then .ok (expireRequest key (mul64 n second)) else .error .leaseExpired := by
  simp only [handleExpire, parsed, if_neg (not_le.2 pos)]

/-- The deadline is the exact one, lies ahead, and means the same to the owner and the sidecar. -/
def RightDeadline (now asked ttl : ℤ) : Prop :=
  ttl = (now + asked) / 1000000 ∧ now < ttl * 1000000 ∧
    ∀ (r : EntryRecord) (t : ℤ), r.ttl = ttl →
      isKeyExpired ttl (t.tdiv 1000000) = recordExpiredAt r (t / 1000000)

theorem rightDeadline_iff {now asked ttl : ℤ} (nonneg : 0 ≤ now) (pos : 1000000 ≤ asked) :
    RightDeadline now asked ttl ↔ ttl = (now + asked) / 1000000 := by
  constructor
  · exact fun h => h.1
  · rintro rfl
    exact ⟨rfl, by omega, fun r t same => expired_agree (by omega) same t⟩

/-- The command is an EXPIRE whose seconds, as an `int64` of nanoseconds, are not positive. -/
def Command.Refused (n : ℤ) : Command → Prop
  | .set _ => False
  | .expire _ => mul64 n second ≤ 0

/-- The request leads to the right deadline as long as clock and duration fit. -/
def RightWhileFitting (asked : ℤ) (r : PutRequest) : Prop :=
  ∀ (forward : Bool) (now : ℤ), 0 ≤ now → now < 9223372036854775808 →
    (RightDeadline now asked ((r.routed forward).deadline now) ↔
      now + asked < 9223372036854775808)

theorem setRequest_right (key value : Bytes) {n unit : ℤ} (pos : 1000000 ≤ n * unit)
    (dvd : 1000000 ∣ n * unit) :
    RightWhileFitting (n * unit) (setRequest key value (mul64 n unit)) := by
  intro forward now nonneg lt
  have product := mul64_cases (a := n) (b := unit) (by omega)
  rw [rightDeadline_iff nonneg pos]
  by_cases wrapped : 0 < mul64 n unit
  · rw [deadline_setRequest forward key value wrapped (by omega),
      deadline_eq_iff forward pos dvd wrapped nonneg lt]
  · -- the option is dropped and nothing is stored
    rw [deadline_setRequest_of_nonpos forward key value (not_lt.1 wrapped)]
    omega

theorem expireRequest_right (key : Bytes) {n : ℤ} (positive : 1 ≤ n)
    (wrapped : 0 < mul64 n second) :
    RightWhileFitting (n * second) (expireRequest key (mul64 n second)) := by
  intro forward now nonneg lt
  have pos : 1000000 ≤ n * second := by unfold second; omega
  rw [rightDeadline_iff nonneg pos, deadline_expireRequest,
    deadline_eq_iff forward pos (by unfold second; omega) wrapped nonneg lt]

/-- What becomes of a command with a positive number. -/
theorem Asks.handle {cmd : Command} {n unit : ℤ} (asks : Asks cmd n unit) (positive : 1 ≤ n)
    (serving : Bool) :
    (cmd.Refused n ∧ cmd.handle serving = .error .ttlNotPositive) ∨
      ¬cmd.Refused n ∧ ∃ r, RightWhileFitting (n * unit) r ∧
        cmd.handle serving = if serving then .ok r else .error .leaseExpired := by
  cases asks with
  | @ex name key value _ _ _ _ _ before isEX parsed =>
    have handled := handleSet_last name key value before (.inl ⟨isEX, rfl⟩) parsed positive serving
    exact .inr ⟨id, _, setRequest_right key value (by unfold second; omega)
      (by unfold second; omega), handled⟩
  | @px name key value _ _ _ _ _ before isPX parsed =>
    have handled := handleSet_last name key value before (.inr ⟨isPX, rfl⟩) parsed positive serving
    exact .inr ⟨id, _, setRequest_right key value (by unfold millisecond; omega)
      (by unfold millisecond; omega), handled⟩
  | @expire name key _ _ parsed =>
    have handled := handleExpire_positive name key parsed positive serving
    by_cases wrapped : mul64 n second ≤ 0
    · rw [if_pos wrapped] at handled
      exact .inl ⟨wrapped, handled⟩
    · rw [if_neg wrapped] at handled
      exact .inr ⟨wrapped, _, expireRequest_right _ positive (not_le.1 wrapped), handled⟩

theorem ttl_written {c : PutCall} {resident : Option MemEntry} {e : MemEntry}
    (written : e ∈ c.written resident) : e.ttl = c.prepareEntry.ttl := by
  unfold PutCall.written at written
  split_ifs at written
  · obtain ⟨old, -, rfl⟩ := Option.map_eq_some_iff.1 written
    rfl
  · rw [← Option.some.inj written]

/-- A command with a positive number is refused or leads to the right deadline exactly if the node
does not serve, or it is an EXPIRE whose duration wraps to nothing positive, or clock and duration
together fit into an `int64` of nanoseconds.  The entry written by a call of `putOnCluster` for the
request has the deadline computed here. -/
theorem deadline_exact_iff {cmd : Command} {n unit : ℤ} (asks : Asks cmd n unit) (positive : 1 ≤ n)
    {now : ℤ} (since1970 : 0 ≤ now) (before2200 : now < 7258118400000000000)
    (serving forward : Bool) :
    ((∀ r, cmd.handle serving = .ok r →
        RightDeadline now (n * unit) ((r.routed forward).deadline now)) ↔
      serving = false ∨ cmd.Refused n ∨ now + n * unit < 9223372036854775808) ∧
    ∀ r, cmd.handle serving = .ok r → ∀ c : PutCall, c.Serves (r.routed forward) →
      ∀ resident, ∀ e ∈ c.written resident,
        e.ttl = (r.routed forward).deadline c.io.preparedAt := by
  refine ⟨?_, fun r _ c serves resident e written => by rw [ttl_written written, serves.ttl]; rfl⟩
  rcases asks.handle positive serving with ⟨refused, handled⟩ | ⟨accepted, r, right, handled⟩
  · simp [handled, refused]
  · cases serving with
    | false => simp [handled]
    | true =>
      have exact := right forward now since1970 (by omega)
      simp [handled, accepted, exact]

/-- `SET key 1 EX 60`. -/
def setMinute : Command := .set [[83, 69, 84], [107], [49], [69, 88], [54, 48]]

theorem deadline_exact_minute :
    ∃ r, setMinute.handle true = .ok r ∧
      RightDeadline 1000000000 (60 * second) ((r.routed false).deadline 1000000000) := by
  have before : parseSetTTL 0 [] = .ok 0 := rfl
  have asks : Asks setMinute 60 second := .ex before (by decide) (by decide)
  have after1970 : (0 : ℤ) ≤ 1000000000 := by decide
  have exact := deadline_exact_iff asks (by decide) after1970 (by decide) true false
  have right := exact.1.2 (.inr (.inr (by decide)))
  exact ⟨_, rfl, right _ rfl⟩

/-- `SET key 1 EX 9223372037` is accepted and stores no deadline at all; `EXPIRE key 18446744074`
stores one that is reached within the second. -/
theorem large_duration_is_dropped :
    (∃ r, handleSet true [[83, 69, 84], [107], [49], [69, 88],
        Decimal.formatInt 9223372037] = .ok r ∧ r.deadline 1700000000000000000 = 0) ∧
    ∃ r, handleExpire true [[69], [107], Decimal.formatInt 18446744074] = .ok r ∧
      r.deadline 1700000000000000000 = 1700000000290 := by
  exact ⟨⟨setRequest [107] [49] (mul64 9223372037 second), by decide +kernel, by decide +kernel⟩,
    ⟨expireRequest [107] (mul64 18446744074 second), by decide +kernel, by decide +kernel⟩⟩

end OlricStack.Node
