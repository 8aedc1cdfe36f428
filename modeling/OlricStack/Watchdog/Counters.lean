import OlricStack.Lib.Run
import OlricStack.Lib.Text
import OlricStack.Store.Record

/-!
# The counters in the ConfigMap

`internal/watchdog/epoch_store.go`: the epoch of the topology and the generation of the watchdog
are two texts in one ConfigMap.  `SaveEpoch` and `NextGeneration` read it, and create or update it
on the condition that nobody else has done so since; otherwise they start over.  Any number of calls
by any number of watchdogs may be under way, reads may be stale, and a write that reports an error
may have been carried out all the same.  No generation is given out twice and no epoch is lost
(`counters_safe`).
-/

namespace OlricStack.Watchdog

open Transition

/-! ## One call -/

/-- The two texts; an absent one is empty, as the map reads it. -/
structure ConfigMap where
  topologyEpoch : Bytes
  watchdogGeneration : Bytes
deriving DecidableEq, Repr

/-- The key of the epoch in the ConfigMap. -/
def epochKey : String := "topologyEpoch"

/-- The key of the generation in the ConfigMap. -/
def generationKey : String := "watchdogGeneration"

/-- `parseStoredCounter`, without its error. -/
def parseStoredCounter (value : Bytes) : Option ℤ :=
  if value = [] then some 0 else Decimal.parseInt64 value

/-- The errors of the calls. -/
inductive CounterError
  /-- an error of the client -/
  | client (text : String)
  /-- "parse ...: ..." -/
  | parse (key : String)
deriving DecidableEq, Repr

/-- The calls on the store. -/
inductive CounterOp
  | saveEpoch (epoch : Int64)
  | nextGeneration
deriving DecidableEq, Repr

/-- How a call returns. -/
inductive CounterResult
  | failed (err : CounterError)
  | saved
  | generation (next : ℤ)
deriving DecidableEq, Repr

/-- What a call does with the ConfigMap it has read. -/
inductive OnFound
  | done (result : CounterResult)
  | update (cm : ConfigMap) (result : CounterResult)
deriving DecidableEq, Repr

namespace CounterOp

/-- What is created where there is no ConfigMap, and what the call returns then. -/
def created : CounterOp → ConfigMap × CounterResult
  | saveEpoch epoch => (⟨Decimal.formatInt epoch.toInt, []⟩, .saved)
  | nextGeneration => (⟨[], [49]⟩, .generation 1)

/-- What a call decides when it has read the ConfigMap. -/
def onFound (op : CounterOp) (cm : ConfigMap) : OnFound :=
  match op with
  | saveEpoch epoch =>
    match parseStoredCounter cm.topologyEpoch with
    | none => .done (.failed (.parse epochKey))
    | some current =>
      if current ≥ epoch.toInt then .done .saved
      else .update { cm with topologyEpoch := Decimal.formatInt epoch.toInt } .saved
  | nextGeneration =>
    match parseStoredCounter cm.watchdogGeneration with
    | none => .done (.failed (.parse generationKey))
    | some current =>
      let next := (current + 1).bmod 18446744073709551616
      let next := if next ≤ 0 then 1 else next
      .update { cm with watchdogGeneration := Decimal.formatInt next } (.generation next)

end CounterOp

/-! ## Calls on one ConfigMap -/

/-- Where a call stands. -/
inductive CounterPc
  /-- at the head of the loop -/
  | loop
  /-- before `Update`, based on a version, or before `Create` -/
  | writing (base : Option ℕ) (cm : ConfigMap) (result : CounterResult)
  /-- returned, with the version that its successful write has committed -/
  | returned (result : CounterResult) (commit : Option ℕ)
deriving DecidableEq, Repr

/-- A call and how far it has come. -/
structure CounterCall where
  op : CounterOp
  pc : CounterPc
deriving DecidableEq, Repr

namespace CounterCall

/-- What a call has returned, if it has. -/
def result (c : CounterCall) : Option CounterResult :=
  match c.pc with
  | .returned r _ => some r
  | _ => none

/-- The version that a call has written, if any. -/
def commit (c : CounterCall) : Option ℕ :=
  match c.pc with
  | .returned _ n => n
  | _ => none

end CounterCall

/-- The versions of the ConfigMap in the order of their commits, none if it has not been created;
and the calls. -/
structure CounterState where
  versions : List ConfigMap
  calls : List CounterCall
deriving DecidableEq, Repr

/-- What `Get` answers: some version, not always the latest. -/
inductive Answer
  | version (n : ℕ)
  | notFound
  | failed (text : String)
deriving DecidableEq, Repr

/-- What `Create` or `Update` answers. -/
inductive WriteReply
  | ok
  /-- AlreadyExists or Conflict -/
  | stale
  /-- another error, the write having been committed or not -/
  | failed (text : String) (committed : Bool)
deriving DecidableEq, Repr

/-- What the callers do, with the answers of the server. -/
inductive CounterAction
  | call (op : CounterOp)
  | get (i : ℕ) (answer : Answer)
  | write (i : ℕ) (reply : WriteReply)
deriving DecidableEq, Repr

namespace CounterState

/-- The place of the latest version. -/
def latest (s : CounterState) : Option ℕ :=
  match s.versions.length with
  | 0 => none
  | n + 1 => some n

/-- The `i`-th call, which is `c`, is at `pc` now. -/
def move (s : CounterState) (i : ℕ) (c : CounterCall) (pc : CounterPc) : CounterState :=
  { s with calls := s.calls.set i { c with pc } }

/-- The server stores a new version. -/
def commit (s : CounterState) (cm : ConfigMap) : CounterState :=
  { s with versions := s.versions ++ [cm] }

/-- The ConfigMap as it is stored, with both texts absent before it is created. -/
def stored (s : CounterState) : ConfigMap := s.versions.getLastD ⟨[], []⟩

theorem stored_move (s : CounterState) (i : ℕ) (c : CounterCall) (pc : CounterPc) :
    (s.move i c pc).stored = s.stored := rfl

theorem stored_commit (s : CounterState) (cm : ConfigMap) : (s.commit cm).stored = cm :=
  List.getLastD_concat ..

end CounterState

/-- One request of a call. -/
def counterStep (s : CounterState) : CounterAction → Option CounterState
  | .call op => some { s with calls := s.calls ++ [⟨op, .loop⟩] }
  | .get i answer =>
    match s.calls[i]? with
    | some ⟨op, .loop⟩ =>
      match answer with
      | .failed text => some (s.move i ⟨op, .loop⟩ (.returned (.failed (.client text)) none))
      | .notFound => some (s.move i ⟨op, .loop⟩ (.writing none op.created.1 op.created.2))
      | .version n =>
        match s.versions[n]? with
        | none => none
        | some cm =>
          match op.onFound cm with
          | .done r => some (s.move i ⟨op, .loop⟩ (.returned r none))
          | .update cm r => some (s.move i ⟨op, .loop⟩ (.writing (some n) cm r))
    | _ => none
  | .write i reply =>
    match s.calls[i]? with
    | some ⟨op, .writing base cm r⟩ =>
      match reply with
      | .ok =>
        if base = s.latest then
          some ((s.commit cm).move i ⟨op, .loop⟩ (.returned r (some s.versions.length)))
        else none
      | .stale => if base = s.latest then none else some (s.move i ⟨op, .loop⟩ .loop)
      | .failed text committed =>
        let failed : CounterPc := .returned (.failed (.client text)) none
        if committed then
          if base = s.latest then some ((s.commit cm).move i ⟨op, .loop⟩ failed) else none
        else some (s.move i ⟨op, .loop⟩ failed)
    | _ => none

/-! ## What is stored -/

namespace ConfigMap

/-- The stored epoch. -/
def epoch (cm : ConfigMap) : ℤ := (parseStoredCounter cm.topologyEpoch).getD 0

/-- The stored generation. -/
def generation (cm : ConfigMap) : ℤ := (parseStoredCounter cm.watchdogGeneration).getD 0

theorem epoch_of_parse {cm : ConfigMap} {n : ℤ}
    (h : parseStoredCounter cm.topologyEpoch = some n) : cm.epoch = n := by
  rw [epoch, h]
  rfl

theorem generation_of_parse {cm : ConfigMap} {n : ℤ}
    (h : parseStoredCounter cm.watchdogGeneration = some n) : cm.generation = n := by
  rw [generation, h]
  rfl

/-- Both counters can be read, and the generation is not negative. -/
structure Valid (cm : ConfigMap) : Prop where
  epoch : parseStoredCounter cm.topologyEpoch ≠ none
  generation : parseStoredCounter cm.watchdogGeneration ≠ none
  nonneg : 0 ≤ cm.generation

end ConfigMap

/-- The ConfigMap is absent, or its counters are absent or not negative; no call is under way. -/
structure CounterState.Start (s : CounterState) : Prop where
  versions : s.versions.length ≤ 1
  valid : ∀ cm ∈ s.versions, cm.Valid ∧ 0 ≤ cm.epoch
  calls : s.calls = []

/-- The generation is below `2^63 - 1`. -/
def BelowMaximum (s : CounterState) (_ : CounterAction) : Prop :=
  s.stored.generation < 9223372036854775807

instance (s : CounterState) (a : CounterAction) : Decidable (BelowMaximum s a) := by
  unfold BelowMaximum
  infer_instance

/-- What a call writes in place of `old`: its own counter, larger than before if there was one, and
the other as it was. -/
inductive Written (old : ConfigMap) (present : Bool) :
    CounterOp → ConfigMap → CounterResult → Prop
  | epoch {cm : ConfigMap} {e : Int64}
      (own : parseStoredCounter cm.topologyEpoch = some e.toInt)
      (above : present = true → old.epoch < e.toInt)
      (other : cm.watchdogGeneration = old.watchdogGeneration) :
      Written old present (.saveEpoch e) cm .saved
  | generation {cm : ConfigMap} {g : ℤ}
      (own : parseStoredCounter cm.watchdogGeneration = some g) (above : old.generation < g)
      (other : cm.topologyEpoch = old.topologyEpoch) :
      Written old present .nextGeneration cm (.generation g)

/-- A number that was written is read back. -/
theorem parseStoredCounter_formatInt {n : ℤ} (ge : -9223372036854775808 ≤ n)
    (lt : n < 9223372036854775808) : parseStoredCounter (Decimal.formatInt n) = some n := by
  have parsed := Decimal.parseInt64_formatInt ge lt
  unfold parseStoredCounter
  split_ifs with empty
  · rw [empty] at parsed
    cases parsed
  · exact parsed

theorem parseStoredCounter_toInt (e : Int64) :
    parseStoredCounter (Decimal.formatInt e.toInt) = some e.toInt :=
  parseStoredCounter_formatInt e.le_toInt e.toInt_lt

theorem written_created (op : CounterOp) : Written ⟨[], []⟩ false op op.created.1 op.created.2 := by
  cases op with
  | saveEpoch e => exact .epoch (parseStoredCounter_toInt e) (by simp) rfl
  | nextGeneration => exact .generation (g := 1) (by decide) (by decide) rfl

theorem written_onFound {op : CounterOp} {old cm : ConfigMap} {r : CounterResult}
    (valid : old.Valid) (below : old.generation < 9223372036854775807)
    (h : op.onFound old = .update cm r) : Written old true op cm r := by
  cases op with
  | saveEpoch e =>
    simp only [CounterOp.onFound] at h
    split at h
    · cases h
    · next current parsed =>
      split_ifs at h with reached
      cases h
      refine .epoch (parseStoredCounter_toInt e) (fun _ => ?_) rfl
      rw [ConfigMap.epoch_of_parse parsed]
      exact not_le.1 reached
  | nextGeneration =>
    simp only [CounterOp.onFound] at h
    split at h
    · cases h
    · next current parsed =>
      have same := ConfigMap.generation_of_parse parsed
      have nonneg := valid.nonneg
      rw [same] at nonneg below
      have next : (current + 1).bmod 18446744073709551616 = current + 1 := by
        unfold Int.bmod
        dsimp only
        split_ifs <;> omega
      rw [next, if_neg (by omega)] at h
      cases h
      refine .generation (parseStoredCounter_formatInt (by omega) (by omega)) ?_ rfl
      rw [same]
      exact Int.lt_succ current

/-! ## What holds in every run -/

/-- Neither counter is larger in `v` than in `w`. -/
structure ConfigMap.Before (v w : ConfigMap) : Prop where
  epoch : v.epoch ≤ w.epoch
  generation : v.generation ≤ w.generation

theorem ConfigMap.Before.trans {u v w : ConfigMap} (h : u.Before v) (h' : v.Before w) :
    u.Before w := ⟨h.epoch.trans h'.epoch, h.generation.trans h'.generation⟩

/-- What a call is about to write is what it makes of the version it has read; what it has returned
is in the versions. -/
def CounterCall.Ok (versions : List ConfigMap) (c : CounterCall) : Prop :=
  match c.pc with
  | .loop => True
  | .writing none cm r => cm = c.op.created.1 ∧ r = c.op.created.2
  | .writing (some n) cm r => ∃ old, versions[n]? = some old ∧ c.op.onFound old = .update cm r
  | .returned (.failed _) commit => commit = none
  | .returned .saved commit => (∀ n ∈ commit, n < versions.length) ∧
      ∀ e, c.op = .saveEpoch e → ∃ v ∈ versions, e.toInt ≤ v.epoch
  | .returned (.generation g) commit => ∃ n v, commit = some n ∧ versions[n]? = some v ∧
      v.generation = g ∧ ∀ w ∈ versions.take n, w.generation < g

/-- What holds in every run: the versions grow, and each was written by one call. -/
structure CounterInv (s : CounterState) : Prop where
  valid : ∀ v ∈ s.versions, v.Valid
  before : s.versions.Pairwise ConfigMap.Before
  signed : ∀ v ∈ s.versions, 0 ≤ v.epoch ∨
    ∃ c ∈ s.calls, ∃ e, c.op = .saveEpoch e ∧ e.toInt < 0
  calls : ∀ c ∈ s.calls, c.Ok s.versions
  commits : ∀ (i j n : ℕ) (c d : CounterCall), s.calls[i]? = some c → s.calls[j]? = some d →
    c.commit = some n → d.commit = some n → i = j

theorem valid_absent : (⟨[], []⟩ : ConfigMap).Valid := ⟨by decide, by decide, by decide⟩

namespace CounterCall.Ok

variable {versions : List ConfigMap} {c : CounterCall}

theorem commit_lt (h : c.Ok versions) {n : ℕ} (commit : c.commit = some n) :
    n < versions.length := by
  obtain ⟨op, pc⟩ := c
  cases pc with
  | loop => cases commit
  | writing base cm r => cases commit
  | returned r answer =>
    obtain rfl : answer = some n := commit
    cases r with
    | failed err => cases h
    | saved => exact h.1 n rfl
    | generation g =>
      obtain ⟨m, v, same, found, -⟩ := h
      cases same
      exact (List.getElem?_eq_some_iff.1 found).1

theorem generation (h : c.Ok versions) {g : ℤ} (result : c.result = some (.generation g)) :
    ∃ n v, c.commit = some n ∧ versions[n]? = some v ∧ v.generation = g ∧
      ∀ w ∈ versions.take n, w.generation < g := by
  obtain ⟨op, pc⟩ := c
  cases pc with
  | loop => cases result
  | writing base cm r => cases result
  | returned r commit =>
    obtain rfl : r = .generation g := Option.some.inj result
    exact h

theorem saved (h : c.Ok versions) {e : Int64} (op : c.op = .saveEpoch e)
    (result : c.result = some .saved) : ∃ v ∈ versions, e.toInt ≤ v.epoch := by
  obtain ⟨op', pc⟩ := c
  cases pc with
  | loop => cases result
  | writing base cm r => cases result
  | returned r commit =>
    obtain rfl : r = .saved := Option.some.inj result
    exact h.2 e op

/-- Another version is committed. -/
theorem append (h : c.Ok versions) (cm : ConfigMap) : c.Ok (versions ++ [cm]) := by
  have old {n : ℕ} {v : ConfigMap} (found : versions[n]? = some v) :
      (versions ++ [cm])[n]? = some v ∧ n < versions.length := by
    have lt := (List.getElem?_eq_some_iff.1 found).1
    exact ⟨(List.getElem?_append_left lt).trans found, lt⟩
  obtain ⟨op, pc⟩ := c
  cases pc with
  | loop => trivial
  | writing base cm r =>
    cases base with
    | none => exact h
    | some n =>
      obtain ⟨v, found, writes⟩ := h
      exact ⟨v, (old found).1, writes⟩
  | returned r commit =>
    cases r with
    | failed err => exact h
    | saved =>
      refine ⟨fun n hn => ?_, fun e he => ?_⟩
      · have lt := h.1 n hn
        simp only [List.length_append, List.length_singleton]
        omega
      · obtain ⟨v, hv, reached⟩ := h.2 e he
        exact ⟨v, List.mem_append_left _ hv, reached⟩
    | generation g =>
      obtain ⟨n, v, same, found, own, above⟩ := h
      obtain ⟨found', lt⟩ := old found
      refine ⟨n, v, same, found', own, ?_⟩
      rwa [List.take_append_of_le_length lt.le]

/-- A call that is content with what it has read. -/
theorem done {op : CounterOp} {cm : ConfigMap} {r : CounterResult} (read : cm ∈ versions)
    (h : op.onFound cm = .done r) : CounterCall.Ok versions ⟨op, .returned r none⟩ := by
  cases op with
  | saveEpoch e =>
    simp only [CounterOp.onFound] at h
    split at h
    · cases h
      rfl
    · next current parsed =>
      split_ifs at h with reached
      cases h
      refine ⟨by simp, fun e' same => ⟨cm, read, ?_⟩⟩
      cases same
      rw [ConfigMap.epoch_of_parse parsed]
      exact reached
  | nextGeneration =>
    simp only [CounterOp.onFound] at h
    split at h <;> cases h
    rfl

end CounterCall.Ok

namespace CounterInv

variable {s u : CounterState}

theorem start (h : s.Start) : CounterInv s := by
  refine ⟨fun v hv => (h.valid v hv).1, ?_, fun v hv => .inl (h.valid v hv).2, by simp [h.calls],
    by simp [h.calls]⟩
  rcases hv : s.versions with _ | ⟨v, _ | ⟨w, rest⟩⟩
  · exact .nil
  · exact List.pairwise_singleton _ _
  · have := h.versions
    rw [hv] at this
    simp only [List.length_cons] at this
    omega

/-- Nothing stored before is larger than what is stored. -/
theorem before_stored (hi : CounterInv s) {v : ConfigMap} (hv : v ∈ s.versions) :
    v.Before s.stored := by
  obtain hnil | ⟨init, last, hlast⟩ := List.eq_nil_or_concat s.versions
  · rw [hnil] at hv
    cases hv
  · have pairs := hi.before
    rw [List.concat_eq_append] at hlast
    rw [CounterState.stored, hlast, List.getLastD_concat]
    rw [hlast] at hv pairs
    rcases List.mem_append.1 hv with hv | hv
    · exact (List.pairwise_append.1 pairs).2.2 v hv last (.head _)
    · rw [List.mem_singleton.1 hv]
      exact ⟨le_rfl, le_rfl⟩

theorem valid_stored (hi : CounterInv s) : s.stored.Valid := by
  obtain hnil | ⟨init, last, hlast⟩ := List.eq_nil_or_concat s.versions
  · rw [CounterState.stored, hnil]
    exact valid_absent
  · rw [CounterState.stored, hlast, List.concat_eq_append, List.getLastD_concat]
    exact hi.valid last (by simp [hlast])

/-- The version of a write that is not refused is the one stored. -/
theorem stored_of_latest {n : ℕ} {v : ConfigMap} (latest : some n = s.latest)
    (found : s.versions[n]? = some v) : s.stored = v := by
  unfold CounterState.latest at latest
  split at latest
  · cases latest
  · next m length =>
    cases latest
    rw [CounterState.stored, List.getLastD_eq_getLast?, List.getLast?_eq_getElem?, length,
      Nat.succ_sub_one, found]
    rfl

/-- What a call that is not refused writes. -/
theorem written (hi : CounterInv s) (below : s.stored.generation < 9223372036854775807) {i : ℕ}
    {op : CounterOp} {base : Option ℕ} {cm : ConfigMap} {r : CounterResult}
    (found : s.calls[i]? = some ⟨op, .writing base cm r⟩) (latest : base = s.latest) :
    Written s.stored (s.versions ≠ []) op cm r := by
  have ok := hi.calls _ (List.mem_of_getElem? found)
  cases base with
  | none =>
    obtain ⟨own, result⟩ := ok
    have absent : s.versions = [] := by
      unfold CounterState.latest at latest
      split at latest
      · next length => exact List.length_eq_zero_iff.1 length
      · cases latest
    rw [CounterState.stored, absent, own, result]
    exact written_created op
  | some n =>
    obtain ⟨old, read, writes⟩ := ok
    have stored := stored_of_latest latest read
    have present : s.versions ≠ [] := List.ne_nil_of_mem (List.mem_of_getElem? read)
    rw [decide_eq_true present, stored]
    rw [stored] at below
    exact written_onFound (hi.valid old (List.mem_of_getElem? read)) below writes

end CounterInv

namespace Written

variable {old cm : ConfigMap} {present : Bool} {op : CounterOp} {r : CounterResult}

theorem valid (h : Written old present op cm r) (was : old.Valid) : cm.Valid := by
  cases h with
  | epoch own _ other =>
    refine ⟨by simp [own], by rw [other]; exact was.generation, ?_⟩
    rw [ConfigMap.generation, other]
    exact was.nonneg
  | generation own above other =>
    refine ⟨by rw [other]; exact was.epoch, by simp [own], ?_⟩
    rw [ConfigMap.generation_of_parse own]
    exact was.nonneg.trans above.le

theorem before (h : Written old true op cm r) : old.Before cm := by
  cases h with
  | epoch own above other =>
    refine ⟨?_, le_of_eq (by rw [ConfigMap.generation, ConfigMap.generation, other])⟩
    rw [ConfigMap.epoch_of_parse own]
    exact (above rfl).le
  | generation own above other =>
    refine ⟨le_of_eq (by rw [ConfigMap.epoch, ConfigMap.epoch, other]), ?_⟩
    rw [ConfigMap.generation_of_parse own]
    exact above.le

end Written

/-! ## Steps -/

/-- The call that takes the step, if it is not a new one. -/
def CounterAction.caller : CounterAction → Option ℕ
  | .call _ => none
  | .get i _ => some i
  | .write i _ => some i

/-- What a step can do: start a call, move one, or commit what one is about to write. -/
inductive CounterMove (s : CounterState) : CounterAction → CounterState → Prop
  | call (op : CounterOp) : CounterMove s (.call op) { s with calls := s.calls ++ [⟨op, .loop⟩] }
  | moved {a : CounterAction} {i : ℕ} {op : CounterOp} {pc pc' : CounterPc}
      (caller : a.caller = some i) (found : s.calls[i]? = some ⟨op, pc⟩)
      (running : CounterCall.result ⟨op, pc⟩ = none) (ok : CounterCall.Ok s.versions ⟨op, pc'⟩)
      (uncommitted : CounterCall.commit ⟨op, pc'⟩ = none) :
      CounterMove s a (s.move i ⟨op, .loop⟩ pc')
  | committed {a : CounterAction} {i : ℕ} {op : CounterOp} {base : Option ℕ} {cm : ConfigMap}
      {r : CounterResult} {pc' : CounterPc}
      (caller : a.caller = some i) (found : s.calls[i]? = some ⟨op, .writing base cm r⟩)
      (latest : base = s.latest)
      (reply : pc' = .returned r (some s.versions.length) ∨
        ∃ err, pc' = .returned (.failed err) none) :
      CounterMove s a ((s.commit cm).move i ⟨op, .loop⟩ pc')

theorem counterStep_move {s u : CounterState} {a : CounterAction} (h : counterStep s a = some u) :
    CounterMove s a u := by
  cases a with
  | call op =>
    cases h
    exact .call op
  | get i answer =>
    simp only [counterStep] at h
    split at h
    · next op found =>
      cases answer with
      | failed text =>
        cases h
        exact .moved rfl found rfl rfl rfl
      | notFound =>
        cases h
        exact .moved rfl found rfl ⟨rfl, rfl⟩ rfl
      | version n =>
        dsimp only at h
        split at h
        · cases h
        · next cm read =>
          split at h
          · next r done =>
            cases h
            exact .moved rfl found rfl (.done (List.mem_of_getElem? read) done) rfl
          · next writes =>
            cases h
            exact .moved rfl found rfl ⟨cm, read, writes⟩ rfl
    · cases h
  | write i reply =>
    simp only [counterStep] at h
    split at h
    · next op base cm r found =>
      cases reply with
      | ok =>
        dsimp only at h
        split_ifs at h with latest
        cases h
        exact .committed rfl found latest (.inl rfl)
      | stale =>
        dsimp only at h
        split_ifs at h
        cases h
        exact .moved rfl found rfl trivial rfl
      | failed text committed =>
        dsimp only at h
        split_ifs at h with _ latest
        · cases h
          exact .committed rfl found latest (.inr ⟨_, rfl⟩)
        · cases h
          exact .moved rfl found rfl rfl rfl
    · cases h

/-- A call that has returned stays as it is. -/
theorem CounterMove.returned {s u : CounterState} {a : CounterAction} (h : CounterMove s a u)
    {i : ℕ} {c : CounterCall} (found : s.calls[i]? = some c) (result : c.result ≠ none) :
    u.calls[i]? = some c := by
  have others {j : ℕ} {op : CounterOp} {pc : CounterPc} (moved : CounterCall)
      (at_j : s.calls[j]? = some ⟨op, pc⟩) (running : CounterCall.result ⟨op, pc⟩ = none) :
      (s.calls.set j moved)[i]? = some c := by
    rw [List.getElem?_set_ne, found]
    rintro rfl
    rw [Option.some.inj (found.symm.trans at_j)] at result
    exact result running
  cases h with
  | call op => exact (List.getElem?_append_left (List.getElem?_eq_some_iff.1 found).1).trans found
  | moved _ at_j running => exact others _ at_j running
  | committed _ at_j => exact others _ at_j rfl

namespace CounterInv

variable {s u : CounterState}

/-- A call moves, and if it has a commit then it is the only one. -/
theorem move (hi : CounterInv s) {i : ℕ} {op : CounterOp} {pc pc' : CounterPc}
    (found : s.calls[i]? = some ⟨op, pc⟩) (ok : CounterCall.Ok s.versions ⟨op, pc'⟩)
    (commit : ∀ n, CounterCall.commit ⟨op, pc'⟩ = some n → ∀ d ∈ s.calls, d.commit ≠ some n) :
    CounterInv (s.move i ⟨op, .loop⟩ pc') := by
  refine ⟨hi.valid, hi.before, fun v hv => ?_, forall_mem_set hi.calls ok, ?_⟩
  · refine (hi.signed v hv).imp_right ?_
    exact exists_mem_set found (fun h => h)
  · intro j k n c d hc hd cn dn
    rcases getElem?_set_cases hc with ⟨rfl, rfl⟩ | ⟨_, hc'⟩ <;>
      rcases getElem?_set_cases hd with ⟨rfl, rfl⟩ | ⟨_, hd'⟩
    · rfl
    · exact absurd dn (commit n cn d (List.mem_of_getElem? hd'))
    · exact absurd cn (commit n dn c (List.mem_of_getElem? hc'))
    · exact hi.commits j k n c d hc' hd' cn dn

/-- What is stored has a negative epoch only if somebody has asked for one. -/
theorem signed_stored (hi : CounterInv s) : 0 ≤ s.stored.epoch ∨
    ∃ c ∈ s.calls, ∃ e, c.op = .saveEpoch e ∧ e.toInt < 0 := by
  obtain hnil | ⟨init, last, hlast⟩ := List.eq_nil_or_concat s.versions
  · rw [CounterState.stored, hnil]
    exact .inl (by decide)
  · rw [CounterState.stored, hlast, List.concat_eq_append, List.getLastD_concat]
    exact hi.signed last (by simp [hlast])

/-- A version is committed. -/
theorem commit (hi : CounterInv s) {i : ℕ} {op : CounterOp} {pc : CounterPc} {cm : ConfigMap}
    {r : CounterResult} (found : s.calls[i]? = some ⟨op, pc⟩)
    (written : Written s.stored (s.versions ≠ []) op cm r) : CounterInv (s.commit cm) := by
  refine ⟨forall_mem_snoc hi.valid (written.valid hi.valid_stored), ?_,
    forall_mem_snoc hi.signed ?_, fun c hc => (hi.calls c hc).append cm, hi.commits⟩
  · refine List.pairwise_append.2 ⟨hi.before, List.pairwise_singleton _ _, fun v hv w hw => ?_⟩
    obtain rfl := List.mem_singleton.1 hw
    rw [decide_eq_true (List.ne_nil_of_mem hv)] at written
    exact (hi.before_stored hv).trans written.before
  · cases written with
    | epoch own =>
      rw [ConfigMap.epoch_of_parse own, or_iff_not_imp_left]
      exact fun negative => ⟨_, List.mem_of_getElem? found, _, rfl, not_le.1 negative⟩
    | generation own above other =>
      rw [ConfigMap.epoch, other]
      exact hi.signed_stored

/-- The caller of a commit returns what it has written. -/
theorem ok_of_written (hi : CounterInv s) {op : CounterOp} {cm : ConfigMap} {r : CounterResult}
    (written : Written s.stored (s.versions ≠ []) op cm r) :
    CounterCall.Ok (s.versions ++ [cm]) ⟨op, .returned r (some s.versions.length)⟩ := by
  cases written with
  | epoch own =>
    refine ⟨fun n hn => ?_, fun e he => ⟨cm, by simp, ?_⟩⟩
    · cases hn
      simp
    · cases he
      rw [ConfigMap.epoch_of_parse own]
  | generation own above =>
    refine ⟨_, cm, rfl, by simp, ConfigMap.generation_of_parse own, fun w hw => ?_⟩
    rw [List.take_left'] at hw
    · exact (hi.before_stored hw).generation.trans_lt above
    · rfl

theorem step (hi : CounterInv s) {a : CounterAction} (below : BelowMaximum s a)
    (h : counterStep s a = some u) : CounterInv u := by
  cases counterStep_move h with
  | call op =>
    refine ⟨hi.valid, hi.before, fun v hv => ?_, forall_mem_snoc hi.calls trivial, ?_⟩
    · refine (hi.signed v hv).imp_right ?_
      rintro ⟨c, hc, negative⟩
      exact ⟨c, List.mem_append_left _ hc, negative⟩
    · intro j k n c d hc hd cn dn
      rcases getElem?_snoc_cases hc with rfl | hc
      · cases cn
      · rcases getElem?_snoc_cases hd with rfl | hd
        · cases dn
        · exact hi.commits j k n c d hc hd cn dn
  | moved _ found _ ok uncommitted =>
    refine hi.move found ok fun n committed => ?_
    rw [uncommitted] at committed
    cases committed
  | committed _ found latest reply =>
    have written := hi.written below found latest
    refine (hi.commit found written).move found ?_ fun n committed d hd same => ?_
    · rcases reply with rfl | ⟨err, rfl⟩
      · exact hi.ok_of_written written
      · rfl
    · rcases reply with rfl | ⟨err, rfl⟩
      · obtain rfl := Option.some.inj committed
        exact lt_irrefl _ ((hi.calls d hd).commit_lt same)
      · cases committed

theorem run (hi : CounterInv s) {as : List CounterAction}
    (run : Run counterStep BelowMaximum s as u) : CounterInv u :=
  run.invariant CounterInv hi fun _ _ _ hi below h => hi.step below h

/-- A step leaves the counter of the other operation as it is. -/
theorem other_unchanged (hi : CounterInv s) {a : CounterAction} (below : BelowMaximum s a)
    (h : counterStep s a = some u) {i : ℕ} {c : CounterCall} (caller : a.caller = some i)
    (found : s.calls[i]? = some c) :
    (c.op = .nextGeneration → u.stored.topologyEpoch = s.stored.topologyEpoch) ∧
      (c.op ≠ .nextGeneration → u.stored.watchdogGeneration = s.stored.watchdogGeneration) := by
  cases counterStep_move h with
  | call op => cases caller
  | moved => exact ⟨fun _ => rfl, fun _ => rfl⟩
  | committed committer at_j latest =>
    obtain rfl := Option.some.inj (caller.symm.trans committer)
    obtain rfl := Option.some.inj (found.symm.trans at_j)
    have written := hi.written below found latest
    rw [CounterState.stored_move, CounterState.stored_commit]
    cases written with
    | epoch _ _ other => exact ⟨by simp, fun _ => other⟩
    | generation _ _ other => exact ⟨fun _ => other, by simp⟩

/-- Generations are handed out in the order of their commits. -/
theorem generation_lt (hi : CounterInv s) {c d : CounterCall} {g h : ℤ} {n m : ℕ}
    (hc : c ∈ s.calls) (hd : d ∈ s.calls) (gc : c.result = some (.generation g))
    (gd : d.result = some (.generation h)) (nc : c.commit = some n) (md : d.commit = some m)
    (lt : n < m) : g < h := by
  obtain ⟨n', v, commit, found, rfl, -⟩ := (hi.calls c hc).generation gc
  obtain rfl := Option.some.inj (nc.symm.trans commit)
  obtain ⟨m', w, commit', -, -, above⟩ := (hi.calls d hd).generation gd
  obtain rfl := Option.some.inj (md.symm.trans commit')
  refine above v (List.mem_of_getElem? (i := n) ?_)
  rw [List.getElem?_take_of_lt lt, found]

/-- Two calls do not get the same generation. -/
theorem generation_ne (hi : CounterInv s) {i j : ℕ} {c d : CounterCall} {g h : ℤ} (ne : i ≠ j)
    (hc : s.calls[i]? = some c) (hd : s.calls[j]? = some d) (gc : c.result = some (.generation g))
    (gd : d.result = some (.generation h)) : g ≠ h := by
  have mc := List.mem_of_getElem? hc
  have md := List.mem_of_getElem? hd
  obtain ⟨n, -, nc, -⟩ := (hi.calls c mc).generation gc
  obtain ⟨m, -, nd, -⟩ := (hi.calls d md).generation gd
  rcases lt_trichotomy n m with lt | rfl | lt
  · exact (hi.generation_lt mc md gc gd nc nd lt).ne
  · exact absurd (hi.commits i j n c d hc hd nc nd) ne
  · exact (hi.generation_lt md mc gd gc nd nc lt).ne'

/-- What a call has saved stays. -/
theorem saved_le (hi : CounterInv s) {c : CounterCall} {e : Int64} (hc : c ∈ s.calls)
    (op : c.op = .saveEpoch e) (result : c.result = some .saved) :
    ∃ v, s.versions.getLast? = some v ∧ e.toInt ≤ v.epoch := by
  obtain ⟨v, hv, reached⟩ := (hi.calls c hc).saved op result
  refine ⟨_, List.getLast?_eq_some_getLast (List.ne_nil_of_mem hv), ?_⟩
  have before := hi.before_stored hv
  rw [CounterState.stored, List.getLastD_eq_getLast?,
    List.getLast?_eq_some_getLast (List.ne_nil_of_mem hv)] at before
  exact reached.trans before.epoch

end CounterInv

/-- A call that has returned stays in every later state. -/
theorem returned_later {s t : CounterState} {as : List CounterAction}
    (run : Run counterStep BelowMaximum s as t) {i : ℕ} {c : CounterCall}
    (found : s.calls[i]? = some c) (result : c.result ≠ none) : t.calls[i]? = some c :=
  run.invariant (fun t => t.calls[i]? = some c) found fun _ _ _ found _ h =>
    (counterStep_move h).returned found result

/-- In every run with the generation below `2^63 - 1`: the generations that calls have returned are
distinct, and smaller for a call that has committed earlier; the stored epochs do not decrease, and
are not negative unless a negative one was to be saved; once `SaveEpoch` has returned without an
error, its epoch is reached in every later state; and a step of one operation leaves the counter of
the other as it is. -/
theorem counters_safe {s₀ s t : CounterState} {as bs : List CounterAction} (start : s₀.Start)
    (run : Run counterStep BelowMaximum s₀ as s) (later : Run counterStep BelowMaximum s bs t) :
    (∀ (i j : ℕ) (c d : CounterCall) (g h : ℤ), i ≠ j → s.calls[i]? = some c →
      s.calls[j]? = some d → c.result = some (.generation g) → d.result = some (.generation h) →
      g ≠ h ∧ ∃ n m, c.commit = some n ∧ d.commit = some m ∧ (n < m → g < h)) ∧
    s.versions.Pairwise (fun v w => v.epoch ≤ w.epoch) ∧
    ((∀ c ∈ s.calls, ∀ e, c.op = .saveEpoch e → 0 ≤ e.toInt) → ∀ v ∈ s.versions, 0 ≤ v.epoch) ∧
    (∀ c ∈ s.calls, ∀ e, c.op = .saveEpoch e → c.result = some .saved →
      ∃ v, t.versions.getLast? = some v ∧ e.toInt ≤ v.epoch) ∧
    (∀ (a : CounterAction) (u : CounterState) (i : ℕ) (c : CounterCall), BelowMaximum s a →
      counterStep s a = some u → a.caller = some i → s.calls[i]? = some c →
      (c.op = .nextGeneration → u.stored.topologyEpoch = s.stored.topologyEpoch) ∧
      (c.op ≠ .nextGeneration →
        u.stored.watchdogGeneration = s.stored.watchdogGeneration)) := by
  have hi := (CounterInv.start start).run run
  refine ⟨fun i j c d g h ne hc hd gc gd => ⟨hi.generation_ne ne hc hd gc gd, ?_⟩,
    hi.before.imp fun h => h.epoch, fun asked v hv => ?_, fun c hc e op result => ?_,
    fun a u i c below h => hi.other_unchanged below h⟩
  · obtain ⟨n, -, nc, -⟩ := (hi.calls c (List.mem_of_getElem? hc)).generation gc
    obtain ⟨m, -, md, -⟩ := (hi.calls d (List.mem_of_getElem? hd)).generation gd
    exact ⟨n, m, nc, md, hi.generation_lt (List.mem_of_getElem? hc) (List.mem_of_getElem? hd)
      gc gd nc md⟩
  · rcases hi.signed v hv with nonneg | ⟨c, hc, e, op, negative⟩
    · exact nonneg
    · exact absurd (asked c hc e op) (not_le.2 negative)
  · obtain ⟨i, found⟩ := List.mem_iff_getElem?.1 hc
    have kept := returned_later later found (by simp [result])
    exact (hi.run later).saved_le (List.mem_of_getElem? kept) op result

/-- Two watchdogs take generations while a third saves an epoch.  The second create fails, the
update that follows conflicts with the saved epoch, and the next one is carried out but reports an
error; the call after that reads a stale version first. -/
def race : List CounterAction :=
  [.call .nextGeneration, .call .nextGeneration, .call (.saveEpoch 5), .get 0 .notFound,
    .get 1 .notFound, .write 0 .ok, .write 1 .stale, .get 1 (.version 0), .get 2 (.version 0),
    .write 2 .ok, .write 1 .stale, .get 1 (.version 1), .write 1 (.failed "timeout" true),
    .call .nextGeneration, .get 3 (.version 0), .write 3 .stale, .get 3 (.version 2), .write 3 .ok]

theorem counters_safe_race :
    ∃ s, Run counterStep BelowMaximum ⟨[], []⟩ race s ∧
      s.calls.map CounterCall.result = [some (.generation 1),
        some (.failed (.client "timeout")), some .saved, some (.generation 3)] ∧
      ∃ v, s.versions.getLast? = some v ∧ (5 : Int64).toInt ≤ v.epoch := by
  obtain ⟨s, run, results, saved⟩ := Run.exists_of_exec counterStep BelowMaximum ⟨[], []⟩ race
    (fun s => s.calls.map CounterCall.result = [some (.generation 1),
      some (.failed (.client "timeout")), some .saved, some (.generation 3)] ∧
      ∃ c ∈ s.calls, c.op = .saveEpoch 5 ∧ c.result = some .saved) (by decide +kernel)
  obtain ⟨c, hc, op, result⟩ := saved
  have start : CounterState.Start ⟨[], []⟩ := ⟨by decide, by simp, rfl⟩
  exact ⟨s, run, results, (counters_safe start run .nil).2.2.2.1 c hc 5 op result⟩

end OlricStack.Watchdog
