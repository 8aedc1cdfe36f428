import OlricStack.Node.Publish

/-!
# Acknowledgement

`AfterSet`, `AfterDelete` and `AfterExpire` of `internal/stringkv/durable_hook.go`, run against a
script of what the sequencer, the ring, the clock and the context do.  A call is recorded with what
it did to the outside.  It returns nil exactly when one append has succeeded, with the operation's
entry; an error means that none has, and `OnFatal` is invoked once over all calls
(`acknowledged_iff_logged`).
-/

namespace OlricStack.Node

/-! ## The hook -/

/-- The errors of a `RingProducer`, told apart as the hook does. -/
inductive AppendError
  | ringFull
  | other (text : String)
deriving DecidableEq, Repr

/-- The errors of `publish`. -/
inductive PublishError
  | stampOwnerSeq (err : StampError)
  | ringAppend (text : String)
  | budgetExceeded
  | contextDone
deriving DecidableEq, Repr

/-- What is passed to `OnFatal`. -/
structure FatalError where
  text : String
  cause : PublishError
deriving DecidableEq, Repr

/-- What a call does to the outside, in order. -/
inductive Effect
  | stamp (generation epoch : ℤ)
  | append (payload : Entry) (err : Option AppendError)
  | wait (ms : ℕ)
  | notify (payload : Entry)
  | onFatal (err : FatalError)
deriving DecidableEq, Repr

/-- The fields of a `DurableHook` that the calls read; the sequencer and the ring are in the
script. -/
structure Hook where
  writerID : Bytes
  hasControl : Bool
  appendBudget : ℤ
  hasOnFatal : Bool
  fatalCalled : Bool
deriving DecidableEq, Repr

/-- `NewDurableHook` with a ring, a lease and a sequencer; a budget that is not positive becomes
five seconds. -/
def newDurableHook (writerID : Bytes) (hasControl : Bool) (appendBudget : ℤ) (hasOnFatal : Bool) :
    Except String Hook :=
  if writerID = [] then .error "writer id is required"
  else
    .ok {
      writerID := writerID
      hasControl := hasControl
      appendBudget := if appendBudget ≤ 0 then 5000000000 else appendBudget
      hasOnFatal := hasOnFatal
      fatalCalled := false }

/-- One turn of the append loop: the ring's answer, and, if the ring was full, the clock read
afterwards and whether the `select` saw the context done. -/
structure Attempt where
  err : Option AppendError
  nowUnixNano : ℤ
  done : Bool
deriving DecidableEq, Repr

/-- What a call meets. -/
structure Script where
  stamped : Except StampError Sequencer
  stampedAt : ℤ
  startedAt : ℤ
  attempts : List Attempt

/-- The loop of `appendWithBudget`; `none` when the script ends before the loop does. -/
def appendWithBudget (payload : Entry) (deadline : ℤ) (backoff : ℕ) :
    List Attempt → Option (Except PublishError Unit × List Effect)
  | [] => none
  | a :: rest =>
    match a.err with
    | none => some (.ok (), [.append payload none])
    | some .ringFull =>
      if a.nowUnixNano > deadline then
        some (.error .budgetExceeded, [.append payload (some .ringFull)])
      else if a.done then some (.error .contextDone, [.append payload (some .ringFull)])
      else
        (appendWithBudget payload deadline (if backoff < 20 then backoff * 2 else backoff) rest).map
          fun out => (out.1, .append payload (some .ringFull) :: .wait backoff :: out.2)
    | some (.other text) => some (.error (.ringAppend text), [.append payload (some (.other text))])

/-- `publish`: stamp the operation and append it within the budget; `none` if the script ends
before. -/
def Hook.publish (h : Hook) (kind : Op) (op : DurableOperation) (io : Script) :
    Option (Except PublishError Unit × List Effect) :=
  match io.stamped with
  | .error err =>
    some (.error (.stampOwnerSeq err), [.stamp op.fenceGeneration op.fenceEpoch])
  | .ok stamped =>
    let payload := encode (logEntry h.writerID kind op stamped io.stampedAt)
    (appendWithBudget payload (io.startedAt + h.appendBudget) 1 io.attempts).map fun out =>
      (out.1, .stamp op.fenceGeneration op.fenceEpoch :: out.2 ++
        if out.1.isOk ∧ h.hasControl then [.notify payload] else [])

/-- `fatal`: the first error is passed on, if there is anybody to pass it to. -/
def Hook.fatal (h : Hook) (err : FatalError) : Hook × List Effect :=
  if h.hasOnFatal = false then (h, [])
  else if h.fatalCalled then (h, [])
  else ({ h with fatalCalled := true }, [.onFatal err])

/-- A call that has returned. -/
structure Returned where
  result : Except PublishError Unit
  effects : List Effect
  hook : Hook

/-- The common body of the three calls. -/
def Hook.afterMutation (h : Hook) (kind : Op) (text : String) (op : DurableOperation)
    (mutationErr : Bool) (io : Script) : Option Returned :=
  if mutationErr then some ⟨.ok (), [], h⟩
  else
    (h.publish kind op io).map fun out =>
      match out.1 with
      | .ok _ => ⟨out.1, out.2, h⟩
      | .error err =>
        let f := h.fatal ⟨text, err⟩
        ⟨.error err, out.2 ++ f.2, f.1⟩

/-- `AfterSet`. -/
def Hook.afterSet (h : Hook) := h.afterMutation .set "durable set publish after mutation"

/-- `AfterDelete`. -/
def Hook.afterDelete (h : Hook) := h.afterMutation .delete "durable delete publish after mutation"

/-- `AfterExpire`. -/
def Hook.afterExpire (h : Hook) := h.afterMutation .expire "durable expire publish after mutation"

/-- A call of one of the three. -/
structure HookCall where
  kind : Op
  op : DurableOperation
  mutationErr : Bool
  io : Script

/-- The hook that is called after a mutation. -/
def Hook.call (h : Hook) (c : HookCall) : Option Returned :=
  match c.kind with
  | .set => h.afterSet c.op c.mutationErr c.io
  | .delete => h.afterDelete c.op c.mutationErr c.io
  | .expire => h.afterExpire c.op c.mutationErr c.io

/-- Any number of calls.  They share nothing of the hook but the flag of `OnFatal`, which one
compare-and-swap sets: calls that overlap stand in the order of their swaps. -/
def Hook.calls (h : Hook) : List HookCall → Option (List Returned)
  | [] => some []
  | c :: cs => do
    let r ← h.call c
    let rs ← r.hook.calls cs
    return r :: rs

/-! ## What was done -/

/-- The payloads whose append succeeded. -/
def appended (es : List Effect) : List Entry :=
  es.filterMap fun
    | .append payload none => some payload
    | _ => none

/-- The errors passed to `OnFatal`. -/
def fatals (es : List Effect) : List FatalError :=
  es.filterMap fun
    | .onFatal err => some err
    | _ => none

/-- The turn after which the loop ends. -/
def Attempt.Ends (a : Attempt) (deadline : ℤ) : Prop :=
  a.err ≠ some .ringFull ∨ a.nowUnixNano > deadline ∨ a.done = true

theorem appended_append (es es' : List Effect) :
    appended (es ++ es') = appended es ++ appended es' :=
  List.filterMap_append

theorem fatals_append (es es' : List Effect) : fatals (es ++ es') = fatals es ++ fatals es' :=
  List.filterMap_append

theorem appendWithBudget_spec {payload : Entry} {deadline : ℤ} {backoff : ℕ}
    {attempts : List Attempt} {out : Except PublishError Unit × List Effect}
    (h : appendWithBudget payload deadline backoff attempts = some out) :
    appended out.2 = (if out.1.isOk then [payload] else []) ∧ fatals out.2 = [] := by
  induction attempts generalizing backoff out with
  | nil => cases h
  | cons a rest ih =>
    simp only [appendWithBudget] at h
    split at h
    · cases h
      exact ⟨rfl, rfl⟩
    · split at h
      · cases h
        exact ⟨rfl, rfl⟩
      · split at h
        · cases h
          exact ⟨rfl, rfl⟩
        · obtain ⟨later, returns, rfl⟩ := Option.map_eq_some_iff.1 h
          -- a refused append and a wait come before what the later turns do
          obtain ⟨appends, quiet⟩ := ih returns
          exact ⟨appends, quiet⟩
    · cases h
      exact ⟨rfl, rfl⟩

/-- The loop returns with the first turn that ends it. -/
theorem appendWithBudget_isSome {deadline : ℤ} {attempts : List Attempt}
    (ends : ∃ a ∈ attempts, a.Ends deadline) (payload : Entry) (backoff : ℕ) :
    (appendWithBudget payload deadline backoff attempts).isSome := by
  induction attempts generalizing backoff with
  | nil =>
    obtain ⟨a, ha, -⟩ := ends
    cases ha
  | cons a rest ih =>
    simp only [appendWithBudget]
    split
    · rfl
    · next full =>
      split
      · rfl
      · next early =>
        split
        · rfl
        · next waits =>
          rw [Option.isSome_map]
          refine ih ?_ _
          obtain ⟨b, hb, ends⟩ := ends
          rcases List.mem_cons.1 hb with rfl | hb
          · rcases ends with other | late | done
            · exact absurd full other
            · exact absurd late early
            · exact absurd done waits
          · exact ⟨b, hb, ends⟩
    · rfl

theorem Hook.publish_spec {h : Hook} {kind : Op} {op : DurableOperation} {io : Script}
    {out : Except PublishError Unit × List Effect} (ret : h.publish kind op io = some out) :
    (out.1.isOk = true → ∃ stamped, io.stamped = .ok stamped ∧
      appended out.2 = [encode (logEntry h.writerID kind op stamped io.stampedAt)]) ∧
      (out.1.isOk = false → appended out.2 = []) ∧ fatals out.2 = [] := by
  unfold publish at ret
  split at ret
  · cases ret
    exact ⟨nofun, fun _ => rfl, rfl⟩
  · next stamped hstamped =>
    obtain ⟨loop, returns, rfl⟩ := Option.map_eq_some_iff.1 ret
    obtain ⟨appends, quiet⟩ := appendWithBudget_spec returns
    -- the notification comes after the loop and appends nothing
    have told : ∀ payload, appended (if loop.1.isOk ∧ h.hasControl then [.notify payload] else [])
        = [] ∧ fatals (if loop.1.isOk ∧ h.hasControl then [.notify payload] else []) = [] := by
      intro payload
      split_ifs <;> exact ⟨rfl, rfl⟩
    have all : ∀ payload, appended (.stamp op.fenceGeneration op.fenceEpoch :: loop.2 ++
        if loop.1.isOk ∧ h.hasControl then [.notify payload] else []) = appended loop.2 := by
      intro payload
      rw [appended_append, (told payload).1, List.append_nil]
      rfl
    refine ⟨fun ok => ⟨stamped, hstamped, ?_⟩, fun failed => ?_, ?_⟩
    · rw [all, appends, if_pos ok]
    · rw [all, appends, failed]
      rfl
    · rw [fatals_append, (told _).2, List.append_nil]
      exact quiet

/-! ## One call -/

/-- The script does not run out before the call returns. -/
def HookCall.Ends (c : HookCall) (h : Hook) : Prop :=
  c.mutationErr = true ∨ (∃ err, c.io.stamped = .error err) ∨
    ∃ a ∈ c.io.attempts, a.Ends (c.io.startedAt + h.appendBudget)

theorem Hook.call_eq (h : Hook) (c : HookCall) :
    ∃ text, h.call c = h.afterMutation c.kind text c.op c.mutationErr c.io := by
  unfold call
  cases hkind : c.kind with
  | set => exact ⟨_, rfl⟩
  | delete => exact ⟨_, rfl⟩
  | expire => exact ⟨_, rfl⟩

theorem Hook.call_isSome {h : Hook} {c : HookCall} (ends : c.Ends h) : (h.call c).isSome := by
  obtain ⟨text, same⟩ := h.call_eq c
  rw [same, afterMutation]
  split
  · rfl
  · next mutated =>
    rw [Option.isSome_map, publish]
    split
    · rfl
    · next stamped hstamped =>
      rw [Option.isSome_map]
      rcases ends with unmutated | ⟨err, refused⟩ | ends
      · exact absurd unmutated mutated
      · rw [hstamped] at refused
        cases refused
      · exact appendWithBudget_isSome ends _ _

/-- A call after a failed mutation does nothing at all. -/
theorem Hook.call_of_mutationErr {h : Hook} {c : HookCall} {r : Returned}
    (ret : h.call c = some r) (failed : c.mutationErr = true) : r = ⟨.ok (), [], h⟩ := by
  obtain ⟨text, same⟩ := h.call_eq c
  rw [same, afterMutation, if_pos failed] at ret
  cases ret
  rfl

/-- What a call after a mutation is: published and silent, or not published and passed to
`fatal`. -/
theorem Hook.call_cases {h : Hook} {c : HookCall} {r : Returned} (ret : h.call c = some r)
    (mutated : c.mutationErr = false) :
    (r.result = .ok () ∧ r.hook = h ∧ fatals r.effects = [] ∧
      ∃ stamped, c.io.stamped = .ok stamped ∧
        appended r.effects = [encode (logEntry h.writerID c.kind c.op stamped c.io.stampedAt)]) ∨
      ∃ err failure, r.result = .error err ∧ r.hook = (h.fatal failure).1 ∧
        fatals r.effects = fatals (h.fatal failure).2 ∧ appended r.effects = [] := by
  obtain ⟨text, same⟩ := h.call_eq c
  rw [same, afterMutation, mutated, if_neg Bool.false_ne_true] at ret
  obtain ⟨⟨result, effects⟩, published, rfl⟩ := Option.map_eq_some_iff.1 ret
  obtain ⟨logged, unlogged, quiet⟩ := publish_spec published
  cases result with
  | ok u => exact .inl ⟨rfl, rfl, quiet, logged rfl⟩
  | error err =>
    refine .inr ⟨err, ⟨text, err⟩, rfl, rfl, ?_, ?_⟩
    · show fatals (effects ++ _) = _
      rw [fatals_append, quiet, List.nil_append]
    · show appended (effects ++ _) = []
      rw [appended_append, unlogged rfl, List.nil_append, fatal]
      split_ifs <;> rfl

/-- With `OnFatal` configured, a call that fails leaves the flag set, and is the one that invokes
`OnFatal` if the flag was not set; a call that succeeds changes nothing. -/
theorem Hook.call_fatals {h : Hook} {c : HookCall} {r : Returned} (configured : h.hasOnFatal = true)
    (ret : h.call c = some r) :
    r.hook.hasOnFatal = true ∧
      (fatals r.effects).length = (if r.result.isOk ∨ h.fatalCalled then 0 else 1) ∧
      r.hook.fatalCalled = (h.fatalCalled || !r.result.isOk) := by
  rcases hmutated : c.mutationErr with _ | _
  · rcases call_cases ret hmutated with ⟨ok, same, quiet, -⟩ | ⟨err, failure, failed, next, told, -⟩
    · rw [same, ok, quiet]
      exact ⟨configured, rfl, (Bool.or_false _).symm⟩
    · rw [next, failed, told, fatal, if_neg (by simp [configured])]
      rcases called : h.fatalCalled with _ | _
      · exact ⟨configured, rfl, rfl⟩
      · exact ⟨configured, rfl, called⟩
  · rw [call_of_mutationErr ret hmutated]
    exact ⟨configured, rfl, (Bool.or_false _).symm⟩

/-! ## Any number of calls -/

theorem Hook.calls_cons {h : Hook} {c : HookCall} {cs : List HookCall} {rs : List Returned}
    (ret : h.calls (c :: cs) = some rs) :
    ∃ r rs', h.call c = some r ∧ r.hook.calls cs = some rs' ∧ rs = r :: rs' := by
  obtain ⟨r, first, ret⟩ := Option.bind_eq_some_iff.1 ret
  obtain ⟨rs', later, ret⟩ := Option.bind_eq_some_iff.1 ret
  cases ret
  exact ⟨r, rs', first, later, rfl⟩

theorem Hook.calls_take {h : Hook} {cs : List HookCall} {rs : List Returned}
    (ret : h.calls cs = some rs) (n : ℕ) : h.calls (cs.take n) = some (rs.take n) := by
  induction cs generalizing h rs n with
  | nil =>
    cases ret
    rw [List.take_nil, List.take_nil]
    rfl
  | cons c cs ih =>
    cases n with
    | zero => rfl
    | succ n =>
      obtain ⟨r, rs', first, later, rfl⟩ := calls_cons ret
      rw [List.take_succ_cons, List.take_succ_cons, calls, first]
      simp only [Option.bind_eq_bind, Option.bind_some, ih later n]
      rfl

theorem Hook.calls_fatals {h : Hook} {cs : List HookCall} {rs : List Returned}
    (configured : h.hasOnFatal = true) (ret : h.calls cs = some rs) :
    (rs.flatMap fun r => fatals r.effects).length =
      if h.fatalCalled = true ∨ ∀ r ∈ rs, r.result.isOk then 0 else 1 := by
  induction cs generalizing h rs with
  | nil =>
    cases ret
    simp
  | cons c cs ih =>
    obtain ⟨r, rs', first, later, rfl⟩ := calls_cons ret
    obtain ⟨still, count, flag⟩ := call_fatals configured first
    rw [List.flatMap_cons, List.length_append, count, ih still later, flag]
    -- the flag after the first call and its own count make up for each other
    rcases h.fatalCalled with _ | _ <;> rcases hok : r.result.isOk with _ | _ <;> simp [hok]

/-- A call after a mutation returns nil exactly when one append has succeeded, with the entry of the
operation under the fence just stamped, and an error means that none has; after a failed mutation
nothing is stamped, appended or notified.  `OnFatal` has been invoked once as soon as one of the
calls so far has failed, and never before. -/
theorem acknowledged_iff_logged (h : Hook) :
    (∀ c : HookCall, c.Ends h → ∃ r, h.call c = some r) ∧
    (∀ c r, h.call c = some r → c.mutationErr = false →
      (r.result = .ok () ↔ ∃ payload, appended r.effects = [payload]) ∧
      (∀ payload ∈ appended r.effects, ∃ stamped, c.io.stamped = .ok stamped ∧
        payload = encode (logEntry h.writerID c.kind c.op stamped c.io.stampedAt)) ∧
      ∀ err, r.result = .error err → appended r.effects = []) ∧
    (∀ c r, h.call c = some r → c.mutationErr = true → r.result = .ok () ∧ r.effects = []) ∧
    ∀ writerID hasControl appendBudget,
      newDurableHook writerID hasControl appendBudget true = .ok h →
      ∀ cs rs, h.calls cs = some rs → ∀ n,
        ((rs.take n).flatMap fun r => fatals r.effects).length =
          if ∀ r ∈ rs.take n, r.result.isOk then 0 else 1 := by
  refine ⟨fun c ends => Option.isSome_iff_exists.1 (Hook.call_isSome ends), ?_, ?_, ?_⟩
  · intro c r ret mutated
    rcases Hook.call_cases ret mutated with ⟨ok, -, -, stamped, hstamped, one⟩ |
      ⟨err, failure, failed, -, -, zero⟩
    · refine ⟨⟨fun _ => ⟨_, one⟩, fun _ => ok⟩, ?_, ?_⟩
      · intro payload hpayload
        rw [one] at hpayload
        exact ⟨stamped, hstamped, List.mem_singleton.1 hpayload⟩
      · intro err failed
        rw [ok] at failed
        cases failed
    · rw [failed, zero]
      exact ⟨⟨nofun, nofun⟩, nofun, fun _ _ => rfl⟩
  · intro c r ret unmutated
    rw [Hook.call_of_mutationErr ret unmutated]
    exact ⟨rfl, rfl⟩
  · intro writerID hasControl appendBudget new cs rs ret n
    rw [newDurableHook] at new
    split at new
    · cases new
    · cases new
      rw [Hook.calls_fatals rfl (Hook.calls_take ret n)]
      simp only [Bool.false_eq_true, false_or]

/-- A SET is refused once by a full ring and then logged; the fence of the DEL after it has been
overtaken. -/
def loggedThenRefused : List HookCall :=
  [⟨.set, ⟨[1], [2], 3, some ⟨[4], 0, 5⟩, 1, 2⟩, false,
      ⟨.ok ⟨1, 2, 1⟩, 10, 10, [⟨some .ringFull, 11, false⟩, ⟨none, 12, false⟩]⟩⟩,
    ⟨.delete, ⟨[1], [2], 3, none, 1, 1⟩, false,
      ⟨.error (.ownerSequenceRollback 1 2 1 1), 13, 13, []⟩⟩]

/-- The DEL is not logged, and is the one to invoke `OnFatal`. -/
theorem acknowledged_iff_logged_two :
    ∃ h r₁ r₂, newDurableHook [7] true 0 true = .ok h ∧
      h.calls loggedThenRefused = some [r₁, r₂] ∧
      (∃ payload, appended r₁.effects = [payload]) ∧ appended r₂.effects = [] ∧
      ([r₁, r₂].flatMap fun r => fatals r.effects).length = 1 := by
  obtain ⟨-, logged, -, once⟩ := acknowledged_iff_logged ⟨[7], true, 5000000000, true, false⟩
  refine ⟨⟨[7], true, 5000000000, true, false⟩, _, _, rfl, rfl, ?_, ?_, ?_⟩
  · exact (logged (loggedThenRefused.get ⟨0, by decide⟩) _ rfl rfl).1.1 rfl
  · exact (logged (loggedThenRefused.get ⟨1, by decide⟩) _ rfl rfl).2.2 _ rfl
  · refine (once [7] true 0 rfl loggedThenRefused _ rfl 2).trans (if_neg fun ok => ?_)
    exact absurd (ok _ (.tail _ (.head _))) Bool.false_ne_true

end OlricStack.Node
