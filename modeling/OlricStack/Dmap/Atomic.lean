import OlricStack.Lib.Text
import OlricStack.Store.Record
import OlricStack.Dmap.Locker

/-!
# Atomic updates of a key

`Incr`, `Decr`, `GetPut` and `Unlock` of a DMap on the node that owns the key: under the lock of the
key they read the value, and store a new one or delete the key by what they have read.  The name of
the lock is the name of the DMap and the key one after the other, so that two keys may share a lock.

As long as nobody else writes the key, the calls take effect one after the other, in the order of
their second steps: what a call answers and what is there afterwards is what the calls give when
each runs alone (`atomic_calls_linearize`).  `Incr` does not ask who owns the key and takes the lock
of the node it runs on, so a call on another node is somebody else: it writes between the two steps
of this one, and its increment is lost (`increment_lost`).
-/

namespace OlricStack.Dmap.Atomic

open Transition

/-- A key of a DMap. -/
structure Key where
  dmap : String
  key : String
deriving DecidableEq

/-- The name of the lock. -/
def Key.atomicKey (k : Key) : String := k.dmap ++ k.key

/-- The operations that read a key and then write it. -/
inductive Op
  | incr (delta : ℤ)
  | decr (delta : ℤ)
  | getPut (value : Bytes)
  | unlock (token : Bytes)
deriving DecidableEq

/-- What a call answers. -/
inductive Reply
  | number (n : ℤ)
  | old (value : Option Bytes)
  | unlocked
  /-- `ErrNoSuchLock` -/
  | noSuchLock
deriving DecidableEq

/-- What the second step of a call does. -/
inductive Effect
  | put (value : Bytes)
  | delete
  | nothing
deriving DecidableEq

/-- The value after the second step of a call, from the one before. -/
def Effect.apply : Effect → Option Bytes → Option Bytes
  | .put value, _ => some value
  | .delete, _ => none
  | .nothing, current => current

/-- `loadCurrentAtomicInt`: a missing key and a value that is no number are zero. -/
def loadCurrentAtomicInt : Option Bytes → ℤ
  | none => 0
  | some value => (Decimal.parseInt64 value).getD 0

/-- The sum of two `int64`. -/
def add64 (a b : ℤ) : ℤ := (a + b).bmod 18446744073709551616

/-- `atomicIncrDecr`, `getPut` and `unlockKey`, with the value that they have read. -/
def Op.run (op : Op) (current : Option Bytes) : Effect × Reply :=
  match op with
  | .incr delta =>
    let updated := add64 (loadCurrentAtomicInt current) delta
    (.put (Decimal.formatInt updated), .number updated)
  | .decr delta =>
    let updated := add64 (loadCurrentAtomicInt current) (-delta)
    (.put (Decimal.formatInt updated), .number updated)
  | .getPut value => (.put value, .old current)
  | .unlock token =>
    if current = some token then (.delete, .unlocked) else (.nothing, .noSuchLock)

/-- A call and how far it has come; `some none` is an error. -/
structure Call where
  key : Key
  op : Op
  read : Option (Option Bytes)
  reply : Option (Option Reply)
deriving DecidableEq

/-- The locks, the calls and the values of the keys on a node. -/
structure State where
  locker : Locker.State String
  /-- the call of each caller of the locker -/
  calls : List Call
  store : Key → Option Bytes
  /-- the calls that have made their second step, in that order -/
  log : Key → List (ℕ × Op)

/-- No calls yet. -/
def State.start (store : Key → Option Bytes) : State := ⟨.start, [], store, fun _ => []⟩

/-- The call of the `i`-th caller is `c` now. -/
def State.setCall (s : State) (i : ℕ) (c : Call) : State := { s with calls := s.calls.set i c }

/-- How `put` or `deleteKeys` returns; it may fail after it has done its work. -/
inductive Outcome
  | done
  | doneAndFailed
  | failed
deriving DecidableEq

/-- What the callers of the operations and of `Lock` do, and all others. -/
inductive Action
  | call (key : Key) (op : Op)
  | locker (a : Locker.Action String)
  | get (i : ℕ) (fails : Bool)
  | put (i : ℕ) (outcome : Outcome)
  /-- one `Put` of `tryLock`, which the owner does in one step -/
  | tryLock (key : Key) (token : Bytes)
  /-- a write by somebody else, or the end of the lifetime of the key -/
  | foreign (key : Key) (value : Option Bytes)

/-- The deferred `Unlock` comes when the call has its result. -/
def State.allows (s : State) : Locker.Action String → Bool
  | .call _ => false
  | .unlock i => s.calls[i]?.any fun c => c.reply.isSome
  | _ => true

/-- The caller has the lock of its name. -/
def State.inside (s : State) (i : ℕ) : Bool :=
  s.locker.threads[i]?.any fun t =>
    match t.pc with
    | .inside _ => true
    | _ => false

/-- `Put` with `NX`: a key that is there is `ErrKeyFound` and keeps its value. -/
def putNX (current : Option Bytes) (token : Bytes) : Option Bytes := some (current.getD token)

/-- The second step of the call `c` of the caller `i`. -/
def State.finish (s : State) (i : ℕ) (c : Call) (current : Option Bytes) (reply : Option Reply) :
    State :=
  { s.setCall i { c with reply := some reply } with
    store := Function.update s.store c.key ((c.op.run current).1.apply (s.store c.key))
    log := Function.update s.log c.key (s.log c.key ++ [(i, c.op)]) }

/-- One step of a caller, or of somebody else. -/
def step (s : State) : Action → Option State
  | .call key op =>
    (Locker.step s.locker (.call key.atomicKey)).map fun locker =>
      { s with locker := locker, calls := s.calls ++ [⟨key, op, none, none⟩] }
  | .locker a =>
    if s.allows a then (Locker.step s.locker a).map fun locker => { s with locker := locker }
    else none
  | .get i fails =>
    match s.calls[i]? with
    | some c =>
      if s.inside i = false ∨ c.read ≠ none ∨ c.reply ≠ none then none
      else if fails then some (s.setCall i { c with reply := some none })
      else some (s.setCall i { c with read := some (s.store c.key) })
    | none => none
  | .put i outcome =>
    match s.calls[i]? with
    | some c =>
      match c.read, c.reply with
      | some current, none =>
        match outcome with
        | .done => some (s.finish i c current (some (c.op.run current).2))
        | .doneAndFailed => some (s.finish i c current none)
        | .failed => some (s.setCall i { c with reply := some none })
      | _, _ => none
    | none => none
  | .tryLock key token =>
    some { s with store := Function.update s.store key (putNX (s.store key) token) }
  | .foreign key value => some { s with store := Function.update s.store key value }

/-! ## What a step does -/

/-- What an action writes that is no step of a call. -/
def State.writes (s : State) : Action → Option (Key × Option Bytes)
  | .tryLock key token => some (key, putNX (s.store key) token)
  | .foreign key value => some (key, value)
  | _ => none

/-- The transitions of `step`, each with what it needs. -/
inductive Steps (s : State) : Action → State → Prop
  | call {key : Key} {op : Op} {locker : Locker.State String}
      (calls : Locker.Steps s.locker (.call key.atomicKey) locker) :
      Steps s (.call key op)
        { s with locker := locker, calls := s.calls ++ [⟨key, op, none, none⟩] }
  | locker {a : Locker.Action String} {locker : Locker.State String} (allowed : s.allows a = true)
      (moves : Locker.Steps s.locker a locker) : Steps s (.locker a) { s with locker := locker }
  | get {i : ℕ} {c : Call} {fails : Bool} (at_i : s.calls[i]? = some c) (inside : s.inside i = true)
      (running : c.reply = none) :
      Steps s (.get i fails) (s.setCall i { c with read := some (s.store c.key) })
  | failed {a : Action} {i : ℕ} {c : Call} (at_i : s.calls[i]? = some c) :
      Steps s a (s.setCall i { c with reply := some none })
  | put {i : ℕ} {c : Call} {current : Option Bytes} {outcome : Outcome} {reply : Option Reply}
      (at_i : s.calls[i]? = some c) (read : c.read = some current) (running : c.reply = none)
      (right : ∀ r, reply = some r → r = (c.op.run current).2) :
      Steps s (.put i outcome) (s.finish i c current reply)
  | write {a : Action} {key : Key} {value : Option Bytes} (wrote : s.writes a = some (key, value)) :
      Steps s a { s with store := Function.update s.store key value }

theorem steps_of_step {s u : State} {a : Action} (h : step s a = some u) : Steps s a u := by
  cases a with
  | call key op =>
    rw [step] at h
    obtain ⟨locker, calls, rfl⟩ := Option.map_eq_some_iff.1 h
    exact .call (Locker.steps_of_step calls)
  | locker a =>
    simp only [step] at h
    split_ifs at h with allowed
    obtain ⟨locker, moves, rfl⟩ := Option.map_eq_some_iff.1 h
    exact .locker allowed (Locker.steps_of_step moves)
  | get i fails =>
    simp only [step] at h
    split at h
    · next c at_i =>
      split_ifs at h with blocked
      · cases h
        exact .failed at_i
      · cases h
        obtain ⟨inside, rest⟩ := not_or.1 blocked
        exact .get at_i (by simpa using inside) (not_not.1 (not_or.1 rest).2)
    · cases h
  | put i outcome =>
    simp only [step] at h
    split at h
    · next c at_i =>
      split at h
      · next current read running =>
        cases outcome with
        | failed =>
          cases h
          exact .failed at_i
        | done =>
          cases h
          exact .put at_i read running fun r same => (Option.some.inj same).symm
        | doneAndFailed =>
          cases h
          exact .put at_i read running fun r same => by cases same
      · cases h
    · cases h
  | tryLock key token =>
    cases h
    exact .write rfl
  | foreign key value =>
    cases h
    exact .write rfl

/-! ## Between the two steps of a call -/

/-- A call between its two steps is inside, and what it has read is related to what is there. -/
structure Guarded (R : Option Bytes → Option Bytes → Prop) (k : Key) (s : State) : Prop where
  ok : Locker.Ok s.locker
  length : s.locker.threads.length = s.calls.length
  names : ∀ (i : ℕ) t c, s.locker.threads[i]? = some t → s.calls[i]? = some c →
    t.name = c.key.atomicKey
  between : ∀ (i : ℕ) c current, s.calls[i]? = some c → c.read = some current → c.reply = none →
    s.inside i = true ∧ (c.key = k → R current (s.store k))

theorem State.inside_iff {s : State} {i : ℕ} :
    s.inside i = true ↔ ∃ t a, s.locker.threads[i]? = some t ∧ t.pc = .inside a := by
  unfold State.inside
  cases found : s.locker.threads[i]? with
  | none => simp
  | some t => cases pc : t.pc <;> simp [pc]

/-- The calls that have begun were there before another one came. -/
theorem getElem?_of_begun {calls : List Call} {i : ℕ} {c : Call} {key : Key} {op : Op}
    (at_i : (calls ++ [⟨key, op, none, none⟩])[i]? = some c)
    (begun : c.read ≠ none ∨ c.reply ≠ none) : calls[i]? = some c := by
  rcases getElem?_snoc_split at_i with ⟨-, rfl⟩ | old
  · rcases begun with begun | begun <;> exact absurd rfl begun
  · exact old

theorem store_finish (s : State) (i : ℕ) (c : Call) (current : Option Bytes)
    (reply : Option Reply) (k : Key) : (s.finish i c current reply).store k =
      if c.key = k then (c.op.run current).1.apply (s.store k) else s.store k := by
  change Function.update s.store c.key _ k = _
  split_ifs with own
  · subst own
    exact Function.update_self ..
  · exact Function.update_of_ne (Ne.symm own) ..

theorem log_finish (s : State) (i : ℕ) (c : Call) (current : Option Bytes)
    (reply : Option Reply) (k : Key) : (s.finish i c current reply).log k =
      if c.key = k then s.log k ++ [(i, c.op)] else s.log k := by
  change Function.update s.log c.key _ k = _
  split_ifs with own
  · subst own
    exact Function.update_self ..
  · exact Function.update_of_ne (Ne.symm own) ..

namespace Guarded

variable {R : Option Bytes → Option Bytes → Prop} {k : Key} {s u : State}

theorem call (h : Guarded R k s) (key : Key) (op : Op) {locker : Locker.State String}
    (calls : Locker.Steps s.locker (.call key.atomicKey) locker) :
    Guarded R k { s with locker := locker, calls := s.calls ++ [⟨key, op, none, none⟩] } := by
  have ok := h.ok.step calls
  cases calls
  refine ⟨ok, ?_, fun i t c at_t at_c => ?_, fun i c current at_i read running => ?_⟩
  · simp only [List.length_append, h.length, List.length_singleton]
  · rcases getElem?_snoc_split at_t with ⟨last, rfl⟩ | at_t <;>
      rcases getElem?_snoc_split at_c with ⟨last', rfl⟩ | at_c
    · rfl
    · have := (List.getElem?_eq_some_iff.1 at_c).1
      have := h.length
      omega
    · have := (List.getElem?_eq_some_iff.1 at_t).1
      have := h.length
      omega
    · exact h.names i t c at_t at_c
  · have begun : c.read ≠ none := by
      rw [read]
      exact Option.some_ne_none _
    obtain ⟨inside, related⟩ := h.between i c current (getElem?_of_begun at_i (.inl begun)) read
      running
    refine ⟨State.inside_iff.2 ?_, related⟩
    obtain ⟨t, a, at_t, pc⟩ := State.inside_iff.1 inside
    exact ⟨t, a, (List.getElem?_append_left (List.getElem?_eq_some_iff.1 at_t).1).trans at_t, pc⟩

/-- A step of the locker; the callers that are between their two steps stay inside. -/
theorem locker (h : Guarded R k s) {a : Locker.Action String} {locker : Locker.State String}
    (allowed : s.allows a = true) (moves : Locker.Steps s.locker a locker) :
    Guarded R k { s with locker := locker } := by
  have ok := h.ok.step moves
  rcases moves.call_or_move with ⟨name, rfl, -⟩ | ⟨j, t₀, pc, at_j, threads, leaves⟩
  · cases allowed
  refine ⟨ok, ?_, fun i t c at_t at_c => ?_, fun i c current at_i read running => ?_⟩
  · simp only [threads, List.length_set, h.length]
  · rw [threads] at at_t
    rcases getElem?_set_cases at_t with ⟨rfl, rfl⟩ | ⟨-, old⟩
    · exact h.names i t₀ c at_j at_c
    · exact h.names i t c old at_c
  · obtain ⟨inside, related⟩ := h.between i c current at_i read running
    refine ⟨State.inside_iff.2 ?_, related⟩
    obtain ⟨t, b, at_t, pc_t⟩ := State.inside_iff.1 inside
    have other : i ≠ j := by
      rintro rfl
      obtain rfl := Option.some.inj (at_t.symm.trans at_j)
      rw [leaves b pc_t, State.allows, at_i, Option.any_some, running] at allowed
      cases allowed
    exact ⟨t, b, by rw [threads, List.getElem?_set_ne other.symm, at_t], pc_t⟩

theorem setCall (h : Guarded R k s) {i : ℕ} {c c' : Call} (at_i : s.calls[i]? = some c)
    (key : c'.key = c.key)
    (between : ∀ current, c'.read = some current → c'.reply = none →
      s.inside i = true ∧ (c'.key = k → R current (s.store k))) :
    Guarded R k (s.setCall i c') := by
  refine ⟨h.ok, ?_, fun j t d at_t at_d => ?_, fun j d current at_j read running => ?_⟩
  · simp only [State.setCall, List.length_set, h.length]
  · rcases getElem?_set_cases at_d with ⟨rfl, rfl⟩ | ⟨-, old⟩
    · rw [key]
      exact h.names j t c at_t at_i
    · exact h.names j t d at_t old
  · rcases getElem?_set_cases at_j with ⟨rfl, rfl⟩ | ⟨-, old⟩
    · exact between current read running
    · exact h.between j d current old read running

/-- Only one call on the key is between its two steps: two of them would be inside with one name. -/
theorem eq_of_between (h : Guarded R k s) {i j : ℕ} {c d : Call} {v w : Option Bytes}
    (at_i : s.calls[i]? = some c) (at_j : s.calls[j]? = some d) (same : c.key = d.key)
    (read : c.read = some v) (running : c.reply = none) (read' : d.read = some w)
    (running' : d.reply = none) : i = j := by
  obtain ⟨t, a, at_t, pc⟩ := State.inside_iff.1 (h.between i c v at_i read running).1
  obtain ⟨t', a', at_t', pc'⟩ := State.inside_iff.1 (h.between j d w at_j read' running').1
  have name : t.name = t'.name := by
    rw [h.names i t c at_t at_i, h.names j t' d at_t' at_j, same]
  exact h.ok.eq_of_inside at_t at_t' pc pc' name

theorem finish (h : Guarded R k s) {i : ℕ} {c : Call} {current : Option Bytes}
    (at_i : s.calls[i]? = some c) (read : c.read = some current) (running : c.reply = none)
    (reply : Option Reply) : Guarded R k (s.finish i c current reply) := by
  have called : Guarded R k (s.setCall i { c with reply := some reply }) :=
    h.setCall at_i rfl fun _ _ running' => by cases running'
  refine ⟨h.ok, called.length, called.names, fun j d v at_j read' running' => ?_⟩
  obtain ⟨inside, related⟩ := called.between j d v at_j read' running'
  refine ⟨inside, fun key => ?_⟩
  rw [store_finish, if_neg]
  · exact related key
  · rintro rfl
    rcases getElem?_set_cases at_j with ⟨rfl, rfl⟩ | ⟨ne, old⟩
    · cases running'
    · exact ne (h.eq_of_between old at_i key read' running' read running)

theorem step (h : Guarded R k s) (refl : ∀ v, R v v) {a : Action}
    (stable : ∀ v, s.writes a = some (k, v) → ∀ c ∈ s.calls, ∀ current, c.key = k →
      c.read = some current → c.reply = none → R current (s.store k) → R current v)
    (steps : Steps s a u) : Guarded R k u := by
  cases steps with
  | @call key op _ calls => exact h.call key op calls
  | locker allowed moves => exact h.locker allowed moves
  | get at_i inside =>
    refine h.setCall at_i rfl fun current read _ => ⟨inside, fun key => ?_⟩
    rw [← Option.some.inj read, ← key]
    exact refl _
  | failed at_i => exact h.setCall at_i rfl fun _ _ running => by cases running
  | put at_i read running => exact h.finish at_i read running _
  | @write _ key v wrote =>
    refine ⟨h.ok, h.length, h.names, fun i c current at_i read running => ?_⟩
    obtain ⟨inside, related⟩ := h.between i c current at_i read running
    refine ⟨inside, fun own => ?_⟩
    change R current (Function.update s.store key v k)
    by_cases same : key = k
    · subst same
      rw [Function.update_self]
      exact stable v wrote c (List.mem_of_getElem? at_i) current own read running (related own)
    · rw [Function.update_of_ne (Ne.symm same)]
      exact related own

end Guarded

theorem guarded_start (R : Option Bytes → Option Bytes → Prop) (k : Key)
    (store : Key → Option Bytes) : Guarded R k (State.start store) where
  ok := Locker.ok_start
  length := rfl
  names i t c at_t := by cases at_t
  between i c current at_i := by cases at_i

/-! ## One call after the other -/

/-- The calls one after the other, each alone. -/
def replay (value : Option Bytes) (log : List (ℕ × Op)) : Option Bytes :=
  log.foldl (fun current p => (p.2.run current).1.apply current) value

theorem replay_snoc (value : Option Bytes) (log : List (ℕ × Op)) (p : ℕ × Op) :
    replay value (log ++ [p]) = (p.2.run (replay value log)).1.apply (replay value log) := by
  rw [replay, List.foldl_append]
  rfl

/-- Nobody else writes the key. -/
def Alone (k : Key) (_ : State) : Action → Prop
  | .tryLock key _ | .foreign key _ => key ≠ k
  | _ => True

theorem Alone.not_writes {k : Key} {s : State} {a : Action} (alone : Alone k s a)
    (v : Option Bytes) : s.writes a ≠ some (k, v) := by
  intro wrote
  cases a with
  | tryLock key token =>
    cases wrote
    exact alone rfl
  | foreign key value =>
    cases wrote
    exact alone rfl
  | _ => cases wrote

/-- The value is that of the calls one after the other, and each has answered what it does in its
place. -/
structure Linear (k : Key) (value : Option Bytes) (s : State) : Prop extends Guarded Eq k s where
  store : s.store k = replay value (s.log k)
  replies : ∀ (i : ℕ) c r, s.calls[i]? = some c → c.key = k → c.reply = some (some r) →
    ∃ before after, s.log k = before ++ (i, c.op) :: after ∧ r = (c.op.run (replay value before)).2
  logged : ∀ p ∈ s.log k, ∃ c, s.calls[p.1]? = some c ∧ c.key = k ∧ c.op = p.2 ∧ c.reply ≠ none
  once : ((s.log k).map Prod.fst).Nodup

namespace Linear

variable {k : Key} {value : Option Bytes} {s u : State}

/-- A call has read the value or failed. -/
theorem setCall (h : Linear k value s) {i : ℕ} {c c' : Call} (at_i : s.calls[i]? = some c)
    (guarded : Guarded Eq k (s.setCall i c')) (key : c'.key = c.key) (op : c'.op = c.op)
    (replies : ∀ r, c'.reply ≠ some (some r)) (kept : c.reply ≠ none → c'.reply ≠ none) :
    Linear k value (s.setCall i c') := by
  refine ⟨guarded, h.store, fun j d r at_j key' replied => ?_, fun p mem => ?_, h.once⟩
  · rcases getElem?_set_cases at_j with ⟨rfl, rfl⟩ | ⟨-, old⟩
    · exact absurd replied (replies r)
    · exact h.replies j d r old key' replied
  · obtain ⟨d, at_p, key', op', replied⟩ := h.logged p mem
    by_cases same : p.1 = i
    · obtain rfl := Option.some.inj ((same ▸ at_p).symm.trans at_i)
      have lt := (List.getElem?_eq_some_iff.1 at_i).1
      exact ⟨c', by rw [State.setCall, same]; exact List.getElem?_set_self lt, key.trans key',
        op.trans op', kept replied⟩
    · exact ⟨d, (List.getElem?_set_ne (Ne.symm same)).trans at_p, key', op', replied⟩

/-- The second step of a call goes to the end of the log. -/
theorem put (h : Linear k value s) {i : ℕ} {c : Call} {current : Option Bytes}
    {reply : Option Reply} (at_i : s.calls[i]? = some c) (read : c.read = some current)
    (running : c.reply = none) (right : ∀ r, reply = some r → r = (c.op.run current).2) :
    Linear k value (s.finish i c current reply) := by
  have lt := (List.getElem?_eq_some_iff.1 at_i).1
  have done : (s.finish i c current reply).calls[i]? = some { c with reply := some reply } :=
    List.getElem?_set_self lt
  have fresh : ∀ p ∈ s.log k, p.1 ≠ i := by
    rintro p mem rfl
    obtain ⟨d, at_p, -, -, replied⟩ := h.logged p mem
    obtain rfl := Option.some.inj (at_p.symm.trans at_i)
    exact replied running
  have logged : ∀ p ∈ s.log k, ∃ d, (s.finish i c current reply).calls[p.1]? = some d ∧
      d.key = k ∧ d.op = p.2 ∧ d.reply ≠ none := by
    intro p mem
    obtain ⟨d, at_p, rest⟩ := h.logged p mem
    exact ⟨d, (List.getElem?_set_ne (fresh p mem).symm).trans at_p, rest⟩
  have guarded := h.toGuarded.finish at_i read running reply
  by_cases own : c.key = k
  · have here : current = replay value (s.log k) :=
      ((h.between i c current at_i read running).2 own).trans h.store
    have log : (s.finish i c current reply).log k = s.log k ++ [(i, c.op)] := by
      rw [log_finish, if_pos own]
    refine ⟨guarded, ?_, fun j d r at_j key' replied => ?_, ?_, ?_⟩
    · rw [store_finish, if_pos own, log, replay_snoc, h.store, here]
    · rw [log]
      rcases getElem?_set_cases at_j with ⟨rfl, rfl⟩ | ⟨-, old⟩
      · refine ⟨s.log k, [], rfl, ?_⟩
        rw [← here]
        exact right r (Option.some.inj replied)
      · obtain ⟨before, after, split, answer⟩ := h.replies j d r old key' replied
        exact ⟨before, after ++ [(i, c.op)], by rw [split]; simp, answer⟩
    · rw [log]
      exact forall_mem_snoc logged ⟨_, done, own, rfl, Option.some_ne_none _⟩
    · rw [log, List.map_append, List.map_singleton]
      refine h.once.append (List.nodup_singleton _) (List.disjoint_singleton.2 fun listed => ?_)
      obtain ⟨p, mem, same⟩ := List.mem_map.1 listed
      exact fresh p mem same
  · have log : (s.finish i c current reply).log k = s.log k := by rw [log_finish, if_neg own]
    refine ⟨guarded, ?_, fun j d r at_j key' replied => ?_, ?_, ?_⟩
    · rw [store_finish, if_neg own, log]
      exact h.store
    · rw [log]
      rcases getElem?_set_cases at_j with ⟨rfl, rfl⟩ | ⟨-, old⟩
      · exact absurd key' own
      · exact h.replies j d r old key' replied
    · rw [log]
      exact logged
    · rw [log]
      exact h.once

theorem step (h : Linear k value s) {a : Action} (alone : Alone k s a) (steps : Steps s a u) :
    Linear k value u := by
  have guarded := h.toGuarded.step (fun _ => rfl)
    (fun v wrote => absurd wrote (alone.not_writes v)) steps
  cases steps with
  | call calls =>
    refine ⟨guarded, h.store, fun i c r at_i key replied => ?_, fun p mem => ?_, h.once⟩
    · have begun : c.reply ≠ none := by
        rw [replied]
        exact Option.some_ne_none _
      exact h.replies i c r (getElem?_of_begun at_i (.inr begun)) key replied
    · obtain ⟨c, at_p, rest⟩ := h.logged p mem
      exact ⟨c, (List.getElem?_append_left (List.getElem?_eq_some_iff.1 at_p).1).trans at_p, rest⟩
  | locker => exact ⟨guarded, h.store, h.replies, h.logged, h.once⟩
  | @get i c _ at_i inside running =>
    refine h.setCall at_i guarded rfl rfl (fun r replied => ?_) id
    rw [show c.reply = some (some r) from replied] at running
    cases running
  | failed at_i =>
    refine h.setCall at_i guarded rfl rfl (fun r replied => ?_) fun _ => Option.some_ne_none _
    cases replied
  | put at_i read running right => exact h.put at_i read running right
  | @write _ key v wrote =>
    have other : (Function.update s.store key v) k = s.store k := by
      refine Function.update_of_ne ?_ ..
      rintro rfl
      exact alone.not_writes v wrote
    exact ⟨guarded, other.trans h.store, h.replies, h.logged, h.once⟩

end Linear

theorem linear_start (k : Key) (store : Key → Option Bytes) :
    Linear k (store k) (State.start store) where
  toGuarded := guarded_start Eq k store
  store := rfl
  replies i c r at_i := by cases at_i
  logged p mem := by cases mem
  once := List.nodup_nil

/-- A key that counts. -/
def hits : Key := ⟨"stats", "hits"⟩

instance (k : Key) (s : State) : ∀ a, Decidable (Alone k s a)
  | .tryLock key _ | .foreign key _ => inferInstanceAs (Decidable (key ≠ k))
  | .call .. | .locker _ | .get .. | .put .. => .isTrue trivial

/-- Another node adds five while the call of this one is between its two steps: its increment is
lost. -/
theorem increment_lost : ∃ s, Run step anyAction (State.start fun _ => none)
    [.call hits (.incr 2), .locker (.enter 0), .locker (.acquire 0), .locker (.dec 0), .get 0 false,
      .foreign hits (((Op.incr 5).run none).1.apply none), .put 0 .done] s ∧
    loadCurrentAtomicInt (s.store hits) = 2 :=
  Run.exists_of_exec step anyAction _ _ (fun s => loadCurrentAtomicInt (s.store hits) = 2)
    (by decide +kernel)

/-! ## Counters -/

/-- What an operation adds to a counter. -/
def Op.delta : Op → ℤ
  | .incr delta => delta
  | .decr delta => -delta
  | _ => 0

/-- The operation is `Incr` or `Decr`. -/
def Op.counts : Op → Bool
  | .incr _ | .decr _ => true
  | _ => false

theorem add64_range (a b : ℤ) :
    -9223372036854775808 ≤ add64 a b ∧ add64 a b < 9223372036854775808 := by
  unfold add64 Int.bmod
  dsimp only
  split_ifs <;> omega

theorem load_apply {op : Op} (counts : op.counts = true) (current : Option Bytes) :
    loadCurrentAtomicInt ((op.run current).1.apply current) =
      add64 (loadCurrentAtomicInt current) op.delta := by
  have parsed : ∀ a b, loadCurrentAtomicInt (some (Decimal.formatInt (add64 a b))) = add64 a b := by
    intro a b
    obtain ⟨ge, lt⟩ := add64_range a b
    rw [loadCurrentAtomicInt, Decimal.parseInt64_formatInt ge lt, Option.getD_some]
  cases op with
  | incr delta => exact parsed _ _
  | decr delta => exact parsed _ _
  | getPut value => cases counts
  | unlock token => cases counts

theorem load_replay {log : List (ℕ × Op)} (counters : ∀ p ∈ log, p.2.counts = true) :
    loadCurrentAtomicInt (replay none log) =
      (log.map fun p : ℕ × Op => p.2.delta).sum.bmod 18446744073709551616 := by
  induction log using List.reverseRecOn with
  | nil => rfl
  | append_singleton log p ih =>
    have before := ih fun q mem => counters q (List.mem_append_left _ mem)
    have last := counters p (List.mem_append_right _ (List.mem_singleton_self p))
    rw [replay_snoc, load_apply last, before, add64, Int.bmod_add_bmod, List.map_append,
      List.sum_append, List.map_singleton, List.sum_singleton]

/-- A key that only counts, from nothing: its value is the sum of what the calls that have stored
add, in 64 bits. -/
theorem counter_eq_sum {k : Key} {store : Key → Option Bytes} {as : List Action} {s : State}
    (r : Run step (Alone k) (State.start store) as s) (fresh : store k = none)
    (counters : ∀ c ∈ s.calls, c.key = k → c.op.counts = true) :
    loadCurrentAtomicInt (s.store k) =
      ((s.log k).map fun p : ℕ × Op => p.2.delta).sum.bmod 18446744073709551616 := by
  have linear : Linear k (store k) s := r.invariant (Linear k (store k)) (linear_start k store)
    fun t a u inv alone enabled => inv.step alone (steps_of_step enabled)
  rw [linear.store, fresh]
  refine load_replay fun p mem => ?_
  obtain ⟨c, at_p, key, op, -⟩ := linear.logged p mem
  rw [← op]
  exact counters c (List.mem_of_getElem? at_p) key

end OlricStack.Dmap.Atomic
