import OlricStack.Wire.RoundTrip

/-!
# What a request can do to its receiver

For every list of arguments, whoever sent it: which requests panic in a parser or for want of their
partition, and which keep a parser for ever (`serve_panics_runs_iff`).
-/

namespace OlricStack.Wire

open Node

variable {F : Type} {lib : Library F}

/-! ## Parsers that return -/

theorem bind_eq_ok {α β : Type} {r : Outcome α} {f : α → Outcome β} {b : β} :
    (r >>= f) = .ok b ↔ ∃ a, r = .ok a ∧ f a = .ok b := by
  cases r <;> simp

/-- There is an answer. -/
structure Outcome.Returns {α : Type} (r : Outcome α) : Prop where
  not_panics : r ≠ .panics
  not_runs : r ≠ .runs

theorem Outcome.Returns.iff_of_false {α : Type} {r : Outcome α} (h : r.Returns) {P Q : Prop}
    (p : ¬ P) (q : ¬ Q) : (r = .panics ↔ P) ∧ (r = .runs ↔ Q) :=
  ⟨by simp [h.not_panics, p], by simp [h.not_runs, q]⟩

section

variable {α β : Type}

@[simp] theorem ok_returns (a : α) : (Outcome.ok a).Returns := ⟨nofun, nofun⟩

@[simp] theorem error_returns (e : RequestError) : (Outcome.error e : Outcome α).Returns :=
  ⟨nofun, nofun⟩

@[simp] theorem panics_returns : ¬ (Outcome.panics : Outcome α).Returns := fun h => h.not_panics rfl

@[simp] theorem runs_returns : ¬ (Outcome.runs : Outcome α).Returns := fun h => h.not_runs rfl

@[simp] theorem bind_returns (r : Outcome α) (f : α → Outcome β) :
    (r >>= f).Returns ↔ r.Returns ∧ ∀ a, r = .ok a → (f a).Returns := by
  cases r <;> simp

@[simp] theorem arg_returns (args : List Bytes) (i : ℕ) :
    (arg args i).Returns ↔ i < args.length := by
  unfold arg
  split
  · rename_i found
    simpa using (List.getElem?_eq_some_iff.1 found).1
  · rename_i missing
    simpa using missing

@[simp] theorem number_returns (parse : Bytes → Option α) (a : Bytes) :
    (number parse a).Returns := by
  unfold number
  split <;> simp

@[simp] theorem need_returns (n : ℕ) (args : List Bytes) (k : Outcome α) :
    (need n args k).Returns ↔ (n ≤ args.length → k.Returns) := by
  unfold need
  split_ifs with lt
  · simp [Nat.not_le.2 lt]
  · simp [Nat.not_lt.1 lt]

@[simp] theorem parseFlag_returns (args : List Bytes) (n : ℕ) (name : String) :
    (parseFlag args (n + 1) name).Returns := by
  unfold parseFlag
  split_ifs with last
  · rw [bind_returns, arg_returns]
    refine ⟨by omega, fun a _ => ?_⟩
    split_ifs <;> simp
  · exact ok_returns _

@[simp] theorem ite_returns (c : Prop) [Decidable c] (r r' : Outcome α) :
    (if c then r else r').Returns ↔ (c → r.Returns) ∧ (¬ c → r'.Returns) := by
  split_ifs with h <;> simp [h]

end

/-- The commands whose parsers may not return. -/
def Name.hazards : List Name := [.put, .getEntry, .scan, .lock, .updateRouting]

/-- All other parsers check that the arguments they read are there. -/
theorem parse_returns (lib : Library F) {n : Name} (other : n ∉ Name.hazards) (fuel : ℕ)
    (args : List Bytes) : (n.parse lib fuel args).Returns := by
  cases n with
  | put | getEntry | scan | lock | updateRouting => exact absurd (by decide) other
  | ping => simp [Name.parse, parsePingCommand]; grind
  | clusterRoutingTable => simp [Name.parse, parseClusterRoutingTable]
  | stats => simp [Name.parse, parseStatsCommand]
  | clusterMembers => simp [Name.parse, parseClusterMembers]
  | auth => simp [Name.parse, parseAuthCommand]; grind
  | subscribe => simp [Name.parse, parseSubscribeCommand]
  | psubscribe => simp [Name.parse, parsePSubscribeCommand]
  | publish => simp [Name.parse, parsePublishCommand]; grind
  | publishInternal => simp [Name.parse, parsePublishInternalCommand]; grind
  | pubSubChannels => simp [Name.parse, parsePubSubChannelsCommand]; grind
  | pubSubNumpat => simp [Name.parse, parsePubSubNumpatCommand]
  | pubSubNumsub => simp [Name.parse, parsePubSubNumsubCommand]
  | lengthOfPart => simp [Name.parse, parseLengthOfPartCommand]; grind
  | get => simp [Name.parse, parseGetCommand]; grind
  | del => simp [Name.parse, parseDelCommand]; grind
  | delEntry => simp [Name.parse, parseDelEntryCommand]; grind
  | putEntry => simp [Name.parse, parsePutEntryCommand]; grind
  | expire => simp [Name.parse, parseExpireCommand]; grind
  | pexpire => simp [Name.parse, parsePExpireCommand]; grind
  | destroy => simp [Name.parse, parseDestroyCommand]; grind
  | incr => simp [Name.parse, parseIncrCommand]; grind
  | decr => simp [Name.parse, parseDecrCommand]; grind
  | getPut => simp [Name.parse, parseGetPutCommand]; grind
  | incrByFloat => simp [Name.parse, parseIncrByFloatCommand]; grind
  | unlock => simp [Name.parse, parseUnlockCommand]; grind
  | lockLease => simp [Name.parse, parseLockLeaseCommand]; grind
  | plockLease => simp [Name.parse, parsePLockLeaseCommand]; grind
  | moveFragment => simp [Name.parse, parseMoveFragmentCommand]; grind

/-! ## Options -/

/-- Behind some complete options comes a rest of a kind. -/
inductive Reaches (flag : Bytes → Prop) (valued : Bytes → Bytes → Prop)
    (rest : List Bytes → Prop) : List Bytes → Prop
  | here {args : List Bytes} (is : rest args) : Reaches flag valued rest args
  | flag {option : Bytes} {args : List Bytes} (is : flag option)
      (later : Reaches flag valued rest args) : Reaches flag valued rest (option :: args)
  | valued {option value : Bytes} {args : List Bytes} (is : valued option value)
      (later : Reaches flag valued rest args) : Reaches flag valued rest (option :: value :: args)

section

variable {flag : Bytes → Prop} {valued : Bytes → Bytes → Prop} {rest : List Bytes → Prop}
  {option value : Bytes} {args : List Bytes}

theorem Reaches.nil_iff : Reaches flag valued rest [] ↔ rest [] := by
  refine ⟨fun h => ?_, .here⟩
  cases h with
  | here is => exact is

/-- Behind an option without a value. -/
theorem Reaches.flag_iff (is : flag option) (other : ∀ value, ¬ valued option value)
    (more : ¬ rest (option :: args)) :
    Reaches flag valued rest (option :: args) ↔ Reaches flag valued rest args := by
  refine ⟨fun h => ?_, .flag is⟩
  cases h with
  | here is => exact absurd is more
  | flag _ later => exact later
  | valued is _ => exact absurd is (other _)

/-- Behind an option with a value. -/
theorem Reaches.valued_iff (is : valued option value) (other : ¬ flag option)
    (more : ¬ rest (option :: value :: args)) :
    Reaches flag valued rest (option :: value :: args) ↔ Reaches flag valued rest args := by
  refine ⟨fun h => ?_, .valued is⟩
  cases h with
  | here is => exact absurd is more
  | flag is _ => exact absurd is other
  | valued _ later => exact later

/-- At an option that is not complete. -/
theorem Reaches.here_iff (other : ¬ flag option) (bare : ∀ value, args.head? = some value →
    ¬ valued option value) :
    Reaches flag valued rest (option :: args) ↔ rest (option :: args) := by
  refine ⟨fun h => ?_, .here⟩
  cases h with
  | here is => exact is
  | flag is _ => exact absurd is other
  | valued is _ => exact absurd is (bare _ rfl)

end

/-- An option of `Put` without a value. -/
def PutFlag (lib : Library F) (option : Bytes) : Prop :=
  (putFlag (lib.toUpper option) : Option (Put F → Put F)) ≠ none

/-- An option of `Put` with a value that can be read. -/
def PutValued (lib : Library F) (option value : Bytes) : Prop :=
  ¬ PutFlag lib option ∧
    ∃ read set, putValue lib (lib.toUpper option) = some read ∧ read value = .ok set

/-- An option of `Put` that lacks its value. -/
def PutLast (lib : Library F) (args : List Bytes) : Prop :=
  ∃ option, args = [option] ∧ ¬ PutFlag lib option ∧ putValue lib (lib.toUpper option) ≠ none

/-- Behind complete options of `Put` the last one lacks its value. -/
def PutDangling (lib : Library F) (args : List Bytes) : Prop :=
  Reaches (PutFlag lib) (PutValued lib) (PutLast lib) args

theorem putValue_returns {name : Bytes} {read : Bytes → Outcome (Put F → Put F)}
    (h : putValue lib name = some read) (value : Bytes) : (read value).Returns := by
  unfold putValue at h
  split_ifs at h <;> cases h <;> simp

theorem putOptions_cons (p : Put F) (option : Bytes) (rest : List Bytes) :
    putOptions lib p (option :: rest) =
      match putFlag (lib.toUpper option), putValue lib (lib.toUpper option), rest with
      | some set, _, rest => putOptions lib (set p) rest
      | none, some _, [] => .panics
      | none, some read, value :: rest => (read value).bind fun set => putOptions lib (set p) rest
      | none, none, _ => .error .syntaxError :=
  (putOptions.eq_def lib p (option :: rest)).trans rfl

theorem putOptions_ne_runs (p : Put F) (args : List Bytes) : putOptions lib p args ≠ .runs := by
  induction size : args.length using Nat.strong_induction_on generalizing p args with
  | _ n ih =>
    cases args with
    | nil => simp [putOptions]
    | cons option rest =>
      rw [putOptions_cons]
      split
      · exact ih _ (by simp [← size]) _ _ rfl
      · simp
      · rename_i read value rest _ known
        have shorter : rest.length < n := by simp only [← size, List.length_cons]; omega
        cases parsed : read value with
        | ok set => exact ih _ shorter _ _ rfl
        | error e => exact (error_returns e).not_runs
        | panics => exact absurd parsed (putValue_returns known value).not_panics
        | runs => exact absurd parsed (putValue_returns known value).not_runs
      · simp

theorem putOptions_panics_iff (p : Put F) (args : List Bytes) :
    putOptions lib p args = .panics ↔ PutDangling lib args := by
  induction size : args.length using Nat.strong_induction_on generalizing p args with
  | _ n ih =>
    cases args with
    | nil => simp [putOptions, PutDangling, Reaches.nil_iff, PutLast]
    | cons option rest =>
      rw [putOptions_cons]
      cases known : (putFlag (lib.toUpper option) : Option (Put F → Put F)) with
      | some set =>
        have is : PutFlag lib option := by simp [PutFlag, known]
        have more : ¬ PutLast lib (option :: rest) := by
          rintro ⟨_, same, other, -⟩
          cases same
          exact other is
        refine (ih _ (by simp [← size]) _ _ rfl).trans ?_
        exact (Reaches.flag_iff is (fun _ h => h.1 is) more).symm
      | none =>
        have other : ¬ PutFlag lib option := by simp [PutFlag, known]
        cases valued : putValue lib (lib.toUpper option) with
        | none =>
          rw [PutDangling, Reaches.here_iff other]
          · simp [PutLast, valued]
          · rintro value - ⟨-, read, set, found, -⟩
            rw [valued] at found
            cases found
        | some read =>
          cases rest with
          | nil =>
            simp only [true_iff]
            exact .here ⟨option, rfl, other, by simp [valued]⟩
          | cons value rest =>
            have more : ¬ PutLast lib (option :: value :: rest) := by
              rintro ⟨_, same, -⟩
              cases same
            have returns := putValue_returns valued value
            cases parsed : read value with
            | ok set =>
              have shorter : rest.length < n := by simp only [← size, List.length_cons]; omega
              dsimp only
              rw [parsed]
              refine (ih _ shorter _ _ rfl).trans ?_
              exact (Reaches.valued_iff ⟨other, read, set, valued, parsed⟩ other more).symm
            | error e =>
              dsimp only
              rw [parsed, PutDangling, Reaches.here_iff other]
              · exact iff_of_false (error_returns e).not_panics more
              · rintro _ ⟨⟩ ⟨-, read', set, found, ok⟩
                cases valued.symm.trans found
                cases parsed.symm.trans ok
            | panics => exact absurd parsed returns.not_panics
            | runs => exact absurd parsed returns.not_runs

/-- The option of `Scan` without a value. -/
def ScanFlag (lib : Library F) (option : Bytes) : Prop :=
  scanValue (lib.toUpper option) = none ∧ lib.toUpper option = text "RC"

/-- An option of `Scan` with a value that can be read. -/
def ScanValued (lib : Library F) (option value : Bytes) : Prop :=
  ∃ read set, scanValue (lib.toUpper option) = some read ∧ read value = .ok set

/-- An option of `Scan` that lacks its value. -/
def ScanLast (lib : Library F) (args : List Bytes) : Prop :=
  ∃ option, args = [option] ∧ scanValue (lib.toUpper option) ≠ none

/-- An option that `Scan` does not know. -/
def ScanUnknown (lib : Library F) (args : List Bytes) : Prop :=
  ∃ option rest, args = option :: rest ∧ scanValue (lib.toUpper option) = none ∧
    lib.toUpper option ≠ text "RC"

/-- Behind complete options of `Scan` the last one lacks its value. -/
def ScanDangling (lib : Library F) (args : List Bytes) : Prop :=
  Reaches (ScanFlag lib) (ScanValued lib) (ScanLast lib) args

/-- Behind complete options of `Scan` comes one that is not known. -/
def ScanStuck (lib : Library F) (args : List Bytes) : Prop :=
  Reaches (ScanFlag lib) (ScanValued lib) (ScanUnknown lib) args

/-- All options of `Scan` are complete. -/
def ScanComplete (lib : Library F) (args : List Bytes) : Prop :=
  Reaches (ScanFlag lib) (ScanValued lib) (fun rest => rest = []) args

theorem scanValue_returns {name : Bytes} {read : Bytes → Outcome (Scan → Scan)}
    (h : scanValue name = some read) (value : Bytes) : (read value).Returns := by
  unfold scanValue at h
  split_ifs at h <;> cases h <;> simp

/-- An option that is unknown stays where it is. -/
theorem scanOptions_unknown {option : Bytes} (rest : List Bytes)
    (unvalued : scanValue (lib.toUpper option) = none) (other : lib.toUpper option ≠ text "RC")
    (fuel : ℕ) (s : Scan) : scanOptions lib fuel s (option :: rest) = .runs := by
  induction fuel with
  | zero => rfl
  | succ fuel ih =>
    rw [scanOptions_cons]
    simp only [unvalued, if_neg other]
    exact ih

/-- How the options of `Scan` come out. -/
structure ScanOutcome (lib : Library F) (args : List Bytes) (r : Outcome Scan) : Prop where
  panics : r = .panics ↔ ScanDangling lib args
  runs : r = .runs ↔ ScanStuck lib args
  ok : (∃ s, r = .ok s) ↔ ScanComplete lib args

theorem ScanOutcome.flag {option : Bytes} {rest : List Bytes} {r : Outcome Scan}
    (h : ScanOutcome lib rest r) (is : ScanFlag lib option) :
    ScanOutcome lib (option :: rest) r := by
  have unvalued value : ¬ ScanValued lib option value := by
    rintro ⟨read, set, found, -⟩
    cases is.1.symm.trans found
  refine ⟨h.panics.trans (Reaches.flag_iff is unvalued ?_).symm,
    h.runs.trans (Reaches.flag_iff is unvalued ?_).symm,
    h.ok.trans (Reaches.flag_iff is unvalued (List.cons_ne_nil _ _)).symm⟩
  · rintro ⟨_, same, known⟩
    cases same
    exact known is.1
  · rintro ⟨_, _, same, -, other⟩
    cases same
    exact other is.2

theorem ScanOutcome.valued {option value : Bytes} {rest : List Bytes} {r : Outcome Scan}
    (h : ScanOutcome lib rest r) (is : ScanValued lib option value) :
    ScanOutcome lib (option :: value :: rest) r := by
  obtain ⟨read, set, found, -⟩ := id is
  have other : ¬ ScanFlag lib option := fun bare => by cases found.symm.trans bare.1
  refine ⟨h.panics.trans (Reaches.valued_iff is other ?_).symm,
    h.runs.trans (Reaches.valued_iff is other ?_).symm,
    h.ok.trans (Reaches.valued_iff is other (List.cons_ne_nil _ _)).symm⟩
  · rintro ⟨_, same, -⟩
    cases same
  · rintro ⟨_, _, same, unvalued, -⟩
    cases same
    cases found.symm.trans unvalued

/-- At an option that is not complete the loop goes no further. -/
theorem ScanOutcome.here {option : Bytes} {rest : List Bytes} {r : Outcome Scan}
    (other : ¬ ScanFlag lib option)
    (bare : ∀ value, rest.head? = some value → ¬ ScanValued lib option value)
    (panics : r = .panics ↔ ScanLast lib (option :: rest))
    (runs : r = .runs ↔ ScanUnknown lib (option :: rest)) (ok : ∀ s, r ≠ .ok s) :
    ScanOutcome lib (option :: rest) r where
  panics := panics.trans (Reaches.here_iff other bare).symm
  runs := runs.trans (Reaches.here_iff other bare).symm
  ok := by
    rw [ScanComplete, Reaches.here_iff other bare]
    exact iff_of_false (fun ⟨s, is⟩ => ok s is) (List.cons_ne_nil _ _)

theorem scanOptions_outcome {fuel : ℕ} {args : List Bytes} (enough : args.length < fuel)
    (s : Scan) : ScanOutcome lib args (scanOptions lib fuel s args) := by
  induction fuel generalizing s args with
  | zero => exact absurd enough (Nat.not_lt_zero _)
  | succ fuel ih =>
    cases args with
    | nil =>
      constructor <;> simp [scanOptions, ScanDangling, ScanStuck, ScanComplete, Reaches.nil_iff,
        ScanLast, ScanUnknown]
    | cons option rest =>
      have shorter : rest.length < fuel := by simpa using enough
      cases valued : scanValue (lib.toUpper option) with
      | none =>
        have complete : ¬ ScanLast lib (option :: rest) := by
          rintro ⟨_, same, known⟩
          cases same
          exact known valued
        by_cases rc : lib.toUpper option = text "RC"
        · rw [scanOptions_cons]
          simp only [valued, if_pos rc]
          exact (ih shorter _).flag ⟨valued, rc⟩
        · rw [scanOptions_unknown rest valued rc]
          refine .here (fun h => rc h.2) ?_ (by simp [complete])
            (iff_of_true rfl ⟨_, _, rfl, valued, rc⟩) nofun
          rintro value - ⟨read, set, found, -⟩
          cases valued.symm.trans found
      | some read =>
        have other : ¬ ScanFlag lib option := by
          rintro ⟨unvalued, -⟩
          cases valued.symm.trans unvalued
        have known : ¬ ScanUnknown lib (option :: rest) := by
          rintro ⟨_, _, same, unvalued, -⟩
          cases same
          cases valued.symm.trans unvalued
        rw [scanOptions_cons]
        cases rest with
        | nil =>
          simp only [valued]
          exact .here other (by simp) (iff_of_true rfl ⟨_, rfl, by simp [valued]⟩)
            (by simp [known]) nofun
        | cons value rest =>
          have complete : ¬ ScanLast lib (option :: value :: rest) := by
            rintro ⟨_, same, -⟩
            cases same
          have returns := scanValue_returns valued value
          simp only [valued]
          cases parsed : read value with
          | ok set => exact (ih (Nat.lt_of_succ_lt shorter) _).valued ⟨read, set, valued, parsed⟩
          | error e =>
            refine .here other ?_ (iff_of_false (error_returns e).not_panics complete)
              (iff_of_false (error_returns e).not_runs known) nofun
            rintro _ ⟨⟩ ⟨read', set, found, ok⟩
            cases valued.symm.trans found
            cases parsed.symm.trans ok
          | panics => exact absurd parsed returns.not_panics
          | runs => exact absurd parsed returns.not_runs

theorem scanValue_keeps {name value : Bytes} {read : Bytes → Outcome (Scan → Scan)}
    {set : Scan → Scan} (known : scanValue name = some read) (parsed : read value = .ok set)
    (s : Scan) : (set s).partID = s.partID ∧ (set s).dmap = s.dmap := by
  unfold scanValue at known
  split_ifs at known <;> cases known
  · cases parsed
    exact ⟨rfl, rfl⟩
  · cases count : Decimal.parseInt64 value with
    | none => simp [number, count] at parsed
    | some n =>
      simp only [number, count, ok_bind, pure_eq, Outcome.ok.injEq] at parsed
      subst parsed
      exact ⟨rfl, rfl⟩

/-- The options of `Scan` say nothing of the partition and the map. -/
theorem scanOptions_keeps {fuel : ℕ} {args : List Bytes} {s s' : Scan}
    (h : scanOptions lib fuel s args = .ok s') : s'.partID = s.partID ∧ s'.dmap = s.dmap := by
  induction fuel generalizing s args with
  | zero => cases h
  | succ fuel ih =>
    cases args with
    | nil =>
      cases h
      exact ⟨rfl, rfl⟩
    | cons option rest =>
      rw [scanOptions_cons] at h
      split at h
      · cases h
      · next read value rest known =>
        obtain ⟨set, parsed, h⟩ := bind_eq_ok.1 h
        have kept := scanValue_keeps known parsed s
        obtain ⟨part, dmap⟩ := ih h
        exact ⟨part.trans kept.1, dmap.trans kept.2⟩
      · split_ifs at h
        · exact ih (s := { s with replica := true }) h
        · exact ih h

/-! ## Parsers that do not return -/

/-- The part and the cursor of `Scan` are numbers. -/
def ScanNumbers (args : List Bytes) : Prop :=
  ∃ command part dmap cursor options, args = command :: part :: dmap :: cursor :: options ∧
    Decimal.parseUint64 part ≠ none ∧ Decimal.parseUint64 cursor ≠ none

/-- The parser of a command reads an argument that is not there. -/
def Stops (lib : Library F) (args : List Bytes) : Name → Prop
  | .getEntry | .updateRouting => args.length = 2
  | .lock => ∃ command dmap key deadline last, args = [command, dmap, key, deadline, last] ∧
      lib.parseFloat deadline ≠ none
  | .put => 4 ≤ args.length ∧ PutDangling lib (args.drop 4)
  | .scan => ScanNumbers args ∧ ScanDangling lib (args.drop 4)
  | _ => False

/-- The parser of a command does not end. -/
def Loops (lib : Library F) (args : List Bytes) : Name → Prop
  | .scan => ScanNumbers args ∧ ScanStuck lib (args.drop 4)
  | _ => False

theorem bind_ok_iff {α β : Type} (r : Outcome α) (g : α → β) :
    ((r >>= fun a => .ok (g a)) = .panics ↔ r = .panics) ∧
      ((r >>= fun a => .ok (g a)) = .runs ↔ r = .runs) := by
  cases r <;> simp

theorem parseGetEntry_iff (args : List Bytes) :
    ((parseGetEntryCommand args : Outcome (Command F)) = .panics ↔ args.length = 2) ∧
      ((parseGetEntryCommand args : Outcome (Command F)) = .runs ↔ False) := by
  by_cases two : args.length = 2
  · obtain ⟨a, b, rfl⟩ := List.length_eq_two.1 two
    exact ⟨iff_of_true rfl two, by simp [parseGetEntryCommand, need]⟩
  · refine Outcome.Returns.iff_of_false ?_ two id
    simp [parseGetEntryCommand]
    grind

theorem parseUpdateRouting_iff (args : List Bytes) :
    ((parseUpdateRoutingCommand args : Outcome (Command F)) = .panics ↔ args.length = 2) ∧
      ((parseUpdateRoutingCommand args : Outcome (Command F)) = .runs ↔ False) := by
  by_cases two : args.length = 2
  · obtain ⟨a, b, rfl⟩ := List.length_eq_two.1 two
    exact ⟨iff_of_true rfl two, by simp [parseUpdateRoutingCommand, need]⟩
  · refine Outcome.Returns.iff_of_false ?_ two id
    simp [parseUpdateRoutingCommand]
    grind

theorem parseLock_iff (args : List Bytes) :
    (parseLockCommand lib args = .panics ↔ Stops lib args .lock) ∧
      (parseLockCommand lib args = .runs ↔ False) := by
  by_cases five : args.length = 5
  · match args, five with
    | [command, dmap, key, deadline, last], _ =>
      cases parsed : lib.parseFloat deadline with
      | none => simp [parseLockCommand, need, number, parsed, Stops]
      | some d => simp [parseLockCommand, need, number, parsed, Stops]
  · refine Outcome.Returns.iff_of_false ?_ ?_ id
    · simp [parseLockCommand]
      grind
    · rintro ⟨_, _, _, _, _, rfl, -⟩
      exact five rfl

theorem parsePut_iff (args : List Bytes) :
    (parsePutCommand lib args = .panics ↔ Stops lib args .put) ∧
      (parsePutCommand lib args = .runs ↔ False) := by
  match args with
  | [] | [_] | [_, _] | [_, _, _] => simp [parsePutCommand, need, Stops]
  | command :: dmap :: key :: value :: options =>
    have long : ¬ options.length + 1 + 1 + 1 + 1 < 4 := by omega
    have whole := bind_ok_iff (putOptions lib
      ⟨dmap, key, value, lib.zero, 0, lib.zero, 0, false, false⟩ options) (Command.put)
    rw [putOptions_panics_iff, iff_false_right (putOptions_ne_runs _ _)] at whole
    simpa [parsePutCommand, need, long, Stops] using whole

theorem parseScan_iff {args : List Bytes} {fuel : ℕ} (enough : args.length ≤ fuel) :
    (parseScanCommand lib fuel args = .panics ↔ Stops lib args .scan) ∧
      (parseScanCommand lib fuel args = .runs ↔ Loops lib args .scan) := by
  match args with
  | [] | [_] | [_, _] | [_, _, _] => simp [parseScanCommand, need, Stops, Loops, ScanNumbers]
  | command :: part :: dmap :: cursor :: options =>
    have long : ¬ options.length + 1 + 1 + 1 + 1 < 4 := by omega
    have shorter : options.length < fuel := by simp at enough; omega
    cases p : Decimal.parseUint64 part with
    | none => simp [parseScanCommand, need, long, number, Stops, Loops, ScanNumbers, p]
    | some partID =>
      cases c : Decimal.parseUint64 cursor with
      | none => simp [parseScanCommand, need, long, number, Stops, Loops, ScanNumbers, p, c]
      | some cursor =>
        have whole := bind_ok_iff (scanOptions lib fuel ⟨partID, dmap, cursor, 0, [], false⟩
          options) fun s => (.scan
            (if s.count = 0 then { s with count := defaultScanCount } else s) : Command F)
        have outcome := @scanOptions_outcome F lib _ _ shorter ⟨partID, dmap, cursor, 0, [], false⟩
        rw [outcome.panics, outcome.runs] at whole
        simpa [parseScanCommand, need, long, number, Stops, Loops, ScanNumbers, p, c] using whole

theorem parse_iff (n : Name) {fuel : ℕ} {args : List Bytes} (enough : args.length ≤ fuel) :
    (n.parse lib fuel args = .panics ↔ Stops lib args n) ∧
      (n.parse lib fuel args = .runs ↔ Loops lib args n) := by
  by_cases hazard : n ∈ Name.hazards
  · simp only [Name.hazards, List.mem_cons, List.not_mem_nil, or_false] at hazard
    rcases hazard with rfl | rfl | rfl | rfl | rfl
    · exact parsePut_iff args
    · exact parseGetEntry_iff args
    · exact parseScan_iff enough
    · exact parseLock_iff args
    · exact parseUpdateRouting_iff args
  · refine (parse_returns lib hazard fuel args).iff_of_false ?_ ?_
    all_goals cases n <;> first | exact id | exact absurd (by decide) hazard

/-! ## What a handler receives -/

/-- The name under which a command is sent. -/
def Command.name : Command F → Name
  | .put _ => .put
  | .putEntry .. => .putEntry
  | .get .. => .get
  | .getEntry .. => .getEntry
  | .del .. => .del
  | .delEntry .. => .delEntry
  | .pexpire .. => .pexpire
  | .expire .. => .expire
  | .destroy .. => .destroy
  | .scan _ => .scan
  | .incr .. => .incr
  | .decr .. => .decr
  | .getPut .. => .getPut
  | .incrByFloat .. => .incrByFloat
  | .lock _ => .lock
  | .unlock .. => .unlock
  | .lockLease .. => .lockLease
  | .plockLease .. => .plockLease
  | .ping _ => .ping
  | .stats _ => .stats
  | .auth _ => .auth
  | .moveFragment _ => .moveFragment
  | .updateRouting .. => .updateRouting
  | .lengthOfPart .. => .lengthOfPart
  | .clusterRoutingTable => .clusterRoutingTable
  | .clusterMembers => .clusterMembers
  | .publish .. => .publish
  | .publishInternal .. => .publishInternal
  | .subscribe _ => .subscribe
  | .psubscribe _ => .psubscribe
  | .pubSubChannels _ => .pubSubChannels
  | .pubSubNumpat => .pubSubNumpat
  | .pubSubNumsub _ => .pubSubNumsub

/-- A result, if there is one, has a property. -/
def Outcome.All {α : Type} (P : α → Prop) (r : Outcome α) : Prop := ∀ a, r = .ok a → P a

section

variable {α β : Type} {P : α → Prop}

@[simp] theorem all_ok (a : α) : (Outcome.ok a).All P ↔ P a := by simp [Outcome.All]

@[simp] theorem all_error (e : RequestError) : (Outcome.error e : Outcome α).All P := nofun

@[simp] theorem all_panics : (Outcome.panics : Outcome α).All P := nofun

@[simp] theorem all_runs : (Outcome.runs : Outcome α).All P := nofun

@[simp] theorem all_bind (r : Outcome β) (f : β → Outcome α) :
    (r >>= f).All P ↔ ∀ b, r = .ok b → (f b).All P := by
  cases r <;> simp

@[simp] theorem all_ite (c : Prop) [Decidable c] (r r' : Outcome α) :
    (if c then r else r').All P ↔ (c → r.All P) ∧ (¬ c → r'.All P) := by
  split_ifs with h <;> simp [h]

@[simp] theorem all_need (n : ℕ) (args : List Bytes) (k : Outcome α) :
    (need n args k).All P ↔ (n ≤ args.length → k.All P) := by
  simp [need]

end

/-- A parser makes the command of its name. -/
theorem parse_name (lib : Library F) (n : Name) (fuel : ℕ) (args : List Bytes) :
    (n.parse lib fuel args).All fun c => c.name = n := by
  cases n with
  | ping => simp [Name.parse, parsePingCommand, Command.name]
  | clusterRoutingTable => simp [Name.parse, parseClusterRoutingTable, Command.name]
  | stats => simp [Name.parse, parseStatsCommand, Command.name]
  | clusterMembers => simp [Name.parse, parseClusterMembers, Command.name]
  | auth => simp [Name.parse, parseAuthCommand, Command.name]
  | subscribe => simp [Name.parse, parseSubscribeCommand, Command.name]
  | psubscribe => simp [Name.parse, parsePSubscribeCommand, Command.name]
  | publish => simp [Name.parse, parsePublishCommand, Command.name]
  | publishInternal => simp [Name.parse, parsePublishInternalCommand, Command.name]
  | pubSubChannels => simp [Name.parse, parsePubSubChannelsCommand, Command.name]
  | pubSubNumpat => simp [Name.parse, parsePubSubNumpatCommand, Command.name]
  | pubSubNumsub => simp [Name.parse, parsePubSubNumsubCommand, Command.name]
  | updateRouting => simp [Name.parse, parseUpdateRoutingCommand, Command.name]
  | lengthOfPart => simp [Name.parse, parseLengthOfPartCommand, Command.name]
  | put => simp [Name.parse, parsePutCommand, Command.name]
  | get => simp [Name.parse, parseGetCommand, Command.name]
  | del => simp [Name.parse, parseDelCommand, Command.name]
  | delEntry => simp [Name.parse, parseDelEntryCommand, Command.name]
  | getEntry => simp [Name.parse, parseGetEntryCommand, Command.name]
  | putEntry => simp [Name.parse, parsePutEntryCommand, Command.name]
  | expire => simp [Name.parse, parseExpireCommand, Command.name]
  | pexpire => simp [Name.parse, parsePExpireCommand, Command.name]
  | destroy => simp [Name.parse, parseDestroyCommand, Command.name]
  | scan => simp [Name.parse, parseScanCommand, Command.name]
  | incr => simp [Name.parse, parseIncrCommand, Command.name]
  | decr => simp [Name.parse, parseDecrCommand, Command.name]
  | getPut => simp [Name.parse, parseGetPutCommand, Command.name]
  | incrByFloat => simp [Name.parse, parseIncrByFloatCommand, Command.name]
  | lock => simp [Name.parse, parseLockCommand, Command.name]
  | unlock => simp [Name.parse, parseUnlockCommand, Command.name]
  | lockLease => simp [Name.parse, parseLockLeaseCommand, Command.name]
  | plockLease => simp [Name.parse, parsePLockLeaseCommand, Command.name]
  | moveFragment => simp [Name.parse, parseMoveFragmentCommand, Command.name]

/-! ## Partitions that are not there -/

variable {r : Receiver}

/-- The commands with the number of a partition. -/
def Name.placed : List Name := [.scan, .lengthOfPart]

/-- The commands without one are handed on. -/
theorem takePartition_of_name {c : Command F} (other : c.name ∉ Name.placed) :
    r.takePartition c = .ok c := by
  cases c with
  | scan => exact absurd (List.mem_cons_self ..) other
  | lengthOfPart => exact absurd (List.mem_cons_of_mem _ (List.mem_cons_self ..)) other
  | _ => rfl

/-- The parser of a command returns, and no partition has the number it was given. -/
def Strays (lib : Library F) (r : Receiver) (args : List Bytes) : Name → Prop
  | .scan => ∃ command part dmap cursor options partID,
      args = command :: part :: dmap :: cursor :: options ∧
      Decimal.parseUint64 part = some partID ∧ Decimal.parseUint64 cursor ≠ none ∧
      ScanComplete lib options ∧ r.opens dmap = true ∧ r.partitionCount ≤ partID
  | .lengthOfPart => ∃ command part rest partID, args = command :: part :: rest ∧
      Decimal.parseUint64 part = some partID ∧ (rest.length = 1 → rest = [text "RC"]) ∧
      r.partitionCount ≤ partID
  | _ => False

theorem lengthOfPart_panics_iff (partID : ℕ) (replica : Bool) :
    r.takePartition (.lengthOfPart partID replica : Command F) = .panics ↔
      r.partitionCount ≤ partID := by
  simp only [Receiver.takePartition]
  split_ifs with within
  · exact iff_of_false nofun (Nat.not_le.2 within)
  · exact iff_of_true rfl (Nat.not_lt.1 within)

theorem scan_panics_iff (s : Scan) :
    r.takePartition (.scan s : Command F) = .panics ↔
      r.opens s.dmap = true ∧ r.partitionCount ≤ s.partID := by
  simp only [Receiver.takePartition]
  split_ifs with closed within
  · exact iff_of_false nofun fun h => by cases closed.symm.trans h.1
  · exact iff_of_false nofun fun h => Nat.not_le.2 within h.2
  · exact iff_of_true rfl ⟨Bool.not_eq_false _ ▸ closed, Nat.not_lt.1 within⟩

theorem parseLengthOfPart_strays (args : List Bytes) :
    (∃ c, (parseLengthOfPartCommand args : Outcome (Command F)) = .ok c ∧
        r.takePartition c = .panics) ↔ Strays lib r args .lengthOfPart := by
  match args with
  | [] | [_] => simp [parseLengthOfPartCommand, need, Strays]
  | command :: part :: rest =>
    have long : ¬ rest.length + 1 + 1 < 2 := by omega
    cases p : Decimal.parseUint64 part with
    | none => simp [parseLengthOfPartCommand, need, long, number, Strays, p]
    | some partID =>
      by_cases one : rest.length = 1
      · obtain ⟨word, rfl⟩ := List.length_eq_one_iff.1 one
        by_cases rc : word = text "RC"
        · simp [parseLengthOfPartCommand, need, number, Strays, p, parseFlag, rc,
            lengthOfPart_panics_iff]
        · simp [parseLengthOfPartCommand, need, number, Strays, p, parseFlag, rc]
      · have other : ¬ rest.length + 1 + 1 = 3 := by omega
        simp [parseLengthOfPartCommand, need, long, number, Strays, p, parseFlag, one,
          lengthOfPart_panics_iff]

theorem parseScan_strays {args : List Bytes} {fuel : ℕ} (enough : args.length ≤ fuel) :
    (∃ c, parseScanCommand lib fuel args = .ok c ∧ r.takePartition c = .panics) ↔
      Strays lib r args .scan := by
  match args with
  | [] | [_] | [_, _] | [_, _, _] => simp [parseScanCommand, need, Strays]
  | command :: part :: dmap :: cursor :: options =>
    have long : ¬ options.length + 1 + 1 + 1 + 1 < 4 := by omega
    have shorter : options.length < fuel := by simp at enough; omega
    cases p : Decimal.parseUint64 part with
    | none => simp [parseScanCommand, need, long, number, Strays, p]
    | some partID =>
      cases c : Decimal.parseUint64 cursor with
      | none => simp [parseScanCommand, need, long, number, Strays, p, c]
      | some position =>
        have complete := (@scanOptions_outcome F lib _ _ shorter
          ⟨partID, dmap, position, 0, [], false⟩).ok
        have parsed : parseScanCommand lib fuel (command :: part :: dmap :: cursor :: options) =
            scanOptions lib fuel ⟨partID, dmap, position, 0, [], false⟩ options >>= fun s =>
              .ok (.scan (if s.count = 0 then { s with count := defaultScanCount } else s)) := by
          simp [parseScanCommand, need, long, number, p, c]
        have placed (s : Scan) :
            (if s.count = 0 then { s with count := defaultScanCount } else s).partID = s.partID ∧
            (if s.count = 0 then { s with count := defaultScanCount } else s).dmap = s.dmap := by
          split_ifs <;> exact ⟨rfl, rfl⟩
        rw [parsed]
        constructor
        · rintro ⟨given, read, panics⟩
          obtain ⟨s, options_eq, same⟩ := bind_eq_ok.1 read
          cases same
          obtain ⟨part_eq, dmap_eq⟩ := scanOptions_keeps options_eq
          rw [scan_panics_iff, (placed s).1, (placed s).2, part_eq, dmap_eq] at panics
          exact ⟨_, _, _, _, _, partID, rfl, p, by simp [c], complete.1 ⟨s, options_eq⟩, panics⟩
        · rintro ⟨_, _, _, _, _, partID', same, p', -, whole, outside⟩
          cases same
          cases p.symm.trans p'
          obtain ⟨s, options_eq⟩ := complete.2 whole
          obtain ⟨part_eq, dmap_eq⟩ := scanOptions_keeps options_eq
          refine ⟨_, by rw [options_eq, ok_bind], ?_⟩
          rwa [scan_panics_iff, (placed s).1, (placed s).2, part_eq, dmap_eq]

/-- A parser that returns, and then no partition. -/
theorem parse_strays (n : Name) {fuel : ℕ} {args : List Bytes} (enough : args.length ≤ fuel) :
    (∃ c, n.parse lib fuel args = .ok c ∧ r.takePartition c = .panics) ↔ Strays lib r args n := by
  by_cases placed : n ∈ Name.placed
  · simp only [Name.placed, List.mem_cons, List.not_mem_nil, or_false] at placed
    rcases placed with rfl | rfl
    · exact parseScan_strays enough
    · exact parseLengthOfPart_strays args
  · refine iff_of_false ?_ ?_
    · rintro ⟨c, parsed, panics⟩
      have name := parse_name lib n fuel args c parsed
      cases (takePartition_of_name (name.symm ▸ placed)).symm.trans panics
    · cases n <;> first | exact id | exact absurd (by decide) placed

/-! ## Requests -/

/-- A request passes the checks before the handler. -/
structure Admitted (lib : Library F) (conn : Conn) (command : Bytes) (n : Name) : Prop where
  name : lib.toLower command = n.text
  authenticated : conn.requireAuth = true → n.text ≠ text "auth" → conn.authenticated = true
  operable : command ≠ text "internal.node.updaterouting" → command ≠ text "auth" →
    conn.operable = true

theorem handler_some {command : Bytes} {n : Name} (found : handler command = some n) :
    n.text = command := by
  simpa using List.find?_some found

theorem handler_none {command : Bytes} (unknown : ∀ n : Name, command ≠ n.text) :
    handler command = none := by
  refine List.find?_eq_none.2 fun n _ => ?_
  simpa using (unknown n).symm

theorem name_injective {n n' : Name} (same : n.text = n'.text) : n = n' :=
  Option.some.inj ((handler_text n).symm.trans (same ▸ handler_text n'))

theorem toLower_pubsub {command : Bytes} (h : command = text "pubsub" ∨ command = text "PUBSUB") :
    lib.toLower command = text "pubsub" := by
  rcases h with rfl | rfl
  · rw [lib.toLower_ascii _ (by decide)]
    decide
  · rw [lib.toLower_ascii _ (by decide)]
    decide

theorem handle_cons (conn : Conn) (parse : List Bytes → Outcome (Command F)) {command : Bytes}
    {rest : List Bytes} (second : command = text "pubsub" ∨ command = text "PUBSUB" → rest ≠ []) :
    handle conn parse (command :: rest) =
      if command ≠ text "internal.node.updaterouting" ∧ command ≠ text "auth" ∧
        conn.operable = false then .error .notOperable else parse (command :: rest) := by
  have read : ∀ k : Outcome (Command F), (if command = text "pubsub" ∨ command = text "PUBSUB" then
      arg (command :: rest) 1 >>= fun _ => k else k) = k := by
    intro k
    split_ifs with two
    · obtain ⟨word, rest, rfl⟩ := List.exists_cons_of_ne_nil (second two)
      rfl
    · rfl
  unfold handle
  rw [arg_zero, ok_bind]
  refine (read _).trans ?_
  grind

/-- A request by the name of a handler. -/
theorem serve_known (conn : Conn) (fuel : ℕ) {command : Bytes} {n : Name}
    (name : lib.toLower command = n.text) (rest : List Bytes) :
    serveRESP lib conn fuel (command :: rest) =
      if conn.requireAuth = true ∧ n.text ≠ text "auth" ∧ conn.authenticated = false then
        .error .authRequired
      else if command ≠ text "internal.node.updaterouting" ∧ command ≠ text "auth" ∧
        conn.operable = false then .error .notOperable
      else n.parse lib fuel (command :: rest) := by
  have one : command = text "pubsub" ∨ command = text "PUBSUB" → rest ≠ [] := fun h =>
    absurd (name.symm.trans (toLower_pubsub h)) (name_ne_pubsub n).1
  rw [serveRESP, arg_zero, ok_bind, name]
  dsimp only
  rw [handler_text]
  dsimp only
  rw [handle_cons conn _ one]

/-- No command in two words is one of those whose parsers may not return, or has the number of a
partition. -/
theorem hazard_one_word : ∀ n ∈ Name.hazards ++ Name.placed, n.text.take 6 ≠ text "pubsub" := by
  decide +kernel

/-- A request by another name is refused, or it is a command in two words. -/
theorem serve_unknown (conn : Conn) (fuel : ℕ) {command : Bytes}
    (unknown : ∀ n : Name, lib.toLower command ≠ n.text) (rest : List Bytes) :
    (∃ e, serveRESP lib conn fuel (command :: rest) = .error e) ∨
      ∃ n : Name, n.text.take 6 = text "pubsub" ∧
        serveRESP lib conn fuel (command :: rest) = n.parse lib fuel (command :: rest) := by
  rw [serveRESP, arg_zero, ok_bind]
  dsimp only
  rw [handler_none unknown]
  split_ifs with refused pubsub short
  · exact .inl ⟨_, rfl⟩
  · exact .inl ⟨_, rfl⟩
  · have more : rest ≠ [] := by
      rintro rfl
      exact short (by simp)
    obtain ⟨word, rest, rfl⟩ := List.exists_cons_of_ne_nil more
    dsimp only
    rw [arg_succ, arg_zero, ok_bind]
    cases found : handler (lib.toLower command ++ [32] ++ word) with
    | none => exact .inl ⟨_, rfl⟩
    | some n =>
      dsimp only
      rw [handle_cons conn _ fun _ => List.cons_ne_nil _ _]
      split_ifs with closed
      · exact .inl ⟨_, rfl⟩
      · refine .inr ⟨n, ?_, rfl⟩
        rw [handler_some found, pubsub]
        rfl
  · exact .inl ⟨_, rfl⟩

/-- What comes of the parsed command. -/
theorem takePartition_iff (parsed : Outcome (Command F)) :
    ((parsed >>= r.takePartition) = .panics ↔
        parsed = .panics ∨ ∃ c, parsed = .ok c ∧ r.takePartition c = .panics) ∧
      ((parsed >>= r.takePartition) = .runs ↔ parsed = .runs) := by
  cases parsed with
  | ok c =>
    refine ⟨by simp, iff_of_false ?_ nofun⟩
    rw [ok_bind, Receiver.takePartition.eq_def]
    split
    · split_ifs <;> nofun
    · split_ifs <;> nofun
    · nofun
  | error e => simp
  | panics => simp
  | runs => simp

/-- A request by no name goes to no partition. -/
theorem serve_unknown_returns (conn : Conn) (fuel : ℕ) {command : Bytes}
    (unknown : ∀ n : Name, lib.toLower command ≠ n.text) (rest : List Bytes) :
    (r.serve lib conn fuel (command :: rest)).Returns := by
  rw [Receiver.serve]
  rcases serve_unknown conn fuel unknown rest with ⟨e, eq⟩ | ⟨n, two, eq⟩
  · rw [eq]
    exact error_returns e
  · have one {l : List Name} (sub : l ⊆ Name.hazards ++ Name.placed) : n ∉ l := fun mem =>
      hazard_one_word n (sub mem) two
    have returns := parse_returns lib (one (List.subset_append_left _ _)) fuel (command :: rest)
    rw [eq, bind_returns]
    refine ⟨returns, fun c parsed => ?_⟩
    have name := parse_name lib n fuel _ c parsed
    rw [takePartition_of_name (name.symm ▸ one (List.subset_append_right _ _))]
    exact ok_returns c

/-- Exactly these requests stop or keep their receiver, up to their parsed command and its
partition. -/
theorem serve_panics_runs_iff (lib : Library F) (r : Receiver) (conn : Conn) (command : Bytes)
    (rest : List Bytes) {fuel : ℕ} (enough : (command :: rest).length ≤ fuel) :
    (r.serve lib conn fuel (command :: rest) = .panics ↔
        ∃ n, Admitted lib conn command n ∧
          (Stops lib (command :: rest) n ∨ Strays lib r (command :: rest) n)) ∧
      (r.serve lib conn fuel (command :: rest) = .runs ↔
        ∃ n, Admitted lib conn command n ∧ Loops lib (command :: rest) n) := by
  by_cases known : ∃ n : Name, lib.toLower command = n.text
  · obtain ⟨n, name⟩ := known
    have only : ∀ P : Name → Prop, (∃ n', Admitted lib conn command n' ∧ P n') ↔
        Admitted lib conn command n ∧ P n := by
      refine fun P => ⟨?_, fun h => ⟨n, h⟩⟩
      rintro ⟨n', admitted, p⟩
      cases name_injective (admitted.name.symm.trans name)
      exact ⟨admitted, p⟩
    rw [only, only, Receiver.serve, serve_known conn fuel name]
    split_ifs with refused closed
    · have not : ¬ Admitted lib conn command n := fun h =>
        absurd (h.authenticated refused.1 refused.2.1) (by simp [refused.2.2])
      exact ⟨iff_of_false nofun fun h => not h.1, iff_of_false nofun fun h => not h.1⟩
    · have not : ¬ Admitted lib conn command n := fun h =>
        absurd (h.operable closed.1 closed.2.1) (by simp [closed.2.2])
      exact ⟨iff_of_false nofun fun h => not h.1, iff_of_false nofun fun h => not h.1⟩
    · have admitted : Admitted lib conn command n := ⟨name, by grind, by grind⟩
      obtain ⟨panics, runs⟩ := takePartition_iff (r := r) (n.parse lib fuel (command :: rest))
      rw [and_iff_right admitted, and_iff_right admitted, panics, runs, (parse_iff n enough).1,
        (parse_iff n enough).2, parse_strays n enough]
      exact ⟨Iff.rfl, Iff.rfl⟩
  · refine (serve_unknown_returns conn fuel (fun n h => known ⟨n, h⟩) rest).iff_of_false ?_ ?_
    · exact fun ⟨n, h, _⟩ => known ⟨n, h.name⟩
    · exact fun ⟨n, h, _⟩ => known ⟨n, h.name⟩

/-- An option of `Put` without its value, a partition that is not there, and an option that `Scan`
does not know. -/
theorem serve_panics_runs_two :
    Receiver.serve wholeLibrary ⟨271, fun _ => true⟩ ⟨true, true, true⟩ 5
        [text "DM.PUT", text "d", text "k", text "v", text "EX"] = .panics ∧
      Receiver.serve wholeLibrary ⟨271, fun _ => true⟩ ⟨true, true, true⟩ 5
        [text "DM.SCAN", text "99999", text "d", text "0"] = .panics ∧
      Receiver.serve wholeLibrary ⟨271, fun _ => true⟩ ⟨true, true, true⟩ 7
        [text "dm.scan", text "1", text "d", text "0", text "RC", text "ALL"] = .runs := by
  refine ⟨?_, ?_, ?_⟩
  · refine (serve_panics_runs_iff wholeLibrary _ _ _ _ (by decide)).1.2 ⟨.put, ?_, .inl ?_⟩
    · exact ⟨by decide, fun _ _ => rfl, fun _ _ => rfl⟩
    · exact ⟨by decide, .here ⟨text "EX", rfl, fun h => h rfl, by decide⟩⟩
  · refine (serve_panics_runs_iff wholeLibrary _ _ _ _ (by decide)).1.2 ⟨.scan, ?_, .inr ?_⟩
    · exact ⟨by decide, fun _ _ => rfl, fun _ _ => rfl⟩
    · exact ⟨_, _, _, _, _, 99999, rfl, by decide, by decide, .here rfl, rfl, by decide⟩
  · refine (serve_panics_runs_iff wholeLibrary _ _ _ _ (by decide)).2.2 ⟨.scan, ?_, ?_⟩
    · exact ⟨by decide, fun _ _ => rfl, fun _ _ => rfl⟩
    · refine ⟨⟨_, _, _, _, _, rfl, by decide, by decide⟩, ?_⟩
      exact .flag ⟨by decide, by decide⟩ (.here ⟨_, _, rfl, by decide, by decide⟩)

end OlricStack.Wire
