import OlricStack.Dmap.Atomic

/-!
# Locks of a DMap

`Lock` stores a random token under the key if the key is not there (`Put` with `NX`, which the owner
does in one step), and tries again until it succeeds or its deadline comes.  `Unlock` runs on the
owner: under the lock of the key it compares the token with its own and deletes the key.  Whoever
has stored its token has the lock.

The lock stays with its holder until `Unlock` is called with its token (`lock_stays_held`).  A
timeout of the lock breaks this when it comes between the two steps of an `Unlock`, which then
removes the lock of the next holder (`unlock_removes_next_lock`).
-/

namespace OlricStack.Dmap.Atomic

open Transition

/-- Nobody writes the key but `Lock` and `Unlock`, and the timeouts do not come between the two
steps of an `Unlock`. -/
def Locking (k : Key) (s : State) : Action → Prop
  | .foreign key value => key = k →
      value = none ∧ ∀ c ∈ s.calls, c.key = k → c.read ≠ none → c.reply ≠ none
  | .call key op => key = k → ∃ token, op = .unlock token
  | _ => True

/-- Neither does the lock time out nor does its holder call `Unlock`. -/
def Kept (k : Key) (token : Bytes) (s : State) (a : Action) : Prop :=
  Locking k s a ∧ a ≠ .foreign k none ∧ a ≠ .call k (.unlock token)

/-- A token that was read is still there. -/
def StillThere (current value : Option Bytes) : Prop := current ≠ none → value = current

/-- All calls on the key are `Unlock`, and none of them has read a token that is gone. -/
structure Locks (k : Key) (s : State) : Prop extends Guarded StillThere k s where
  unlocks : ∀ c ∈ s.calls, c.key = k → ∃ token, c.op = .unlock token

/-- The keys and operations of the calls do not change. -/
theorem mem_calls_of_steps {s u : State} {a : Action} (steps : Steps s a u) {d : Call}
    (mem : d ∈ u.calls) :
    a = .call d.key d.op ∧ d.reply = none ∨
      ∃ c ∈ s.calls, d.key = c.key ∧ d.op = c.op ∧ (c.reply ≠ none → d.reply ≠ none) := by
  have moved : ∀ {i : ℕ} {c : Call} (c' : Call), s.calls[i]? = some c → c'.key = c.key →
      c'.op = c.op → (c.reply ≠ none → c'.reply ≠ none) → ∀ e ∈ s.calls.set i c',
        ∃ c ∈ s.calls, e.key = c.key ∧ e.op = c.op ∧ (c.reply ≠ none → e.reply ≠ none) :=
    fun _ at_i key op kept => forall_mem_set (fun e mem_e => ⟨e, mem_e, rfl, rfl, id⟩)
      ⟨_, List.mem_of_getElem? at_i, key, op, kept⟩
  cases steps with
  | call =>
    rcases List.mem_append.1 mem with old | new
    · exact .inr ⟨d, old, rfl, rfl, id⟩
    · obtain rfl := List.mem_singleton.1 new
      exact .inl ⟨rfl, rfl⟩
  | locker => exact .inr ⟨d, mem, rfl, rfl, id⟩
  | @get _ c _ at_i =>
    exact .inr (moved { c with read := some (s.store c.key) } at_i rfl rfl id d mem)
  | @failed _ _ c at_i =>
    exact .inr (moved { c with reply := some none } at_i rfl rfl
      (fun _ => Option.some_ne_none _) d mem)
  | @put _ c _ _ reply at_i =>
    exact .inr (moved { c with reply := some reply } at_i rfl rfl
      (fun _ => Option.some_ne_none _) d mem)
  | write => exact .inr ⟨d, mem, rfl, rfl, id⟩

/-- A write of the key that is no `Unlock` is an attempt of `Lock` or a timeout. -/
theorem Locking.writes {k : Key} {s : State} {a : Action} (locking : Locking k s a)
    {v : Option Bytes} (wrote : s.writes a = some (k, v)) :
    (∃ token, v = putNX (s.store k) token) ∨
      a = .foreign k none ∧ ∀ c ∈ s.calls, c.key = k → c.read ≠ none → c.reply ≠ none := by
  cases a with
  | tryLock key token =>
    cases wrote
    exact .inl ⟨token, rfl⟩
  | foreign key value =>
    cases wrote
    obtain ⟨rfl, idle⟩ := locking rfl
    exact .inr ⟨rfl, idle⟩
  | _ => cases wrote

/-- The lock that somebody has is not taken. -/
theorem putNX_some (held token : Bytes) : putNX (some held) token = some held := rfl

theorem Locks.step {k : Key} {s u : State} (h : Locks k s) {a : Action} (locking : Locking k s a)
    (steps : Steps s a u) : Locks k u := by
  refine ⟨h.toGuarded.step (fun v _ => rfl) ?_ steps, fun d mem own => ?_⟩
  · intro v wrote c mem current key read running there token_read
    rcases locking.writes wrote with ⟨token, rfl⟩ | ⟨-, idle⟩
    · obtain ⟨held, rfl⟩ := Option.ne_none_iff_exists'.1 token_read
      rw [there token_read, putNX_some]
    · exact absurd running (idle c mem key (by rw [read]; exact Option.some_ne_none _))
  · rcases mem_calls_of_steps steps mem with ⟨rfl, -⟩ | ⟨c, mem_c, key, op, -⟩
    · exact locking own
    · rw [op]
      exact h.unlocks c mem_c (key ▸ own)

/-- The holder has its token stored, and no `Unlock` with it is running. -/
structure Holding (k : Key) (token : Bytes) (s : State) : Prop extends Locks k s where
  held : s.store k = some token
  idle : ∀ c ∈ s.calls, c.key = k → c.op = .unlock token → c.reply ≠ none

theorem Holding.step {k : Key} {token : Bytes} {s u : State} (h : Holding k token s) {a : Action}
    (kept : Kept k token s a) (steps : Steps s a u) : Holding k token u := by
  obtain ⟨locking, lives, silent⟩ := kept
  refine ⟨h.toLocks.step locking steps, ?_, fun d mem own op => ?_⟩
  · cases steps with
    | call => exact h.held
    | locker => exact h.held
    | get => exact h.held
    | failed => exact h.held
    | @put i c current _ _ at_i read running =>
      rw [store_finish]
      split_ifs with own
      · -- the call is an `Unlock` with another token
        have mem := List.mem_of_getElem? at_i
        obtain ⟨other, op⟩ := h.unlocks c mem own
        have differs : current ≠ some other := by
          rintro rfl
          have there := (h.between i c _ at_i read running).2 own (Option.some_ne_none _)
          rw [h.held] at there
          rw [← Option.some.inj there] at op
          exact h.idle c mem own op running
        rw [op, Op.run, if_neg differs]
        exact h.held
      · exact h.held
    | @write _ key value wrote =>
      change Function.update s.store key value k = some token
      by_cases own : key = k
      · subst own
        rcases locking.writes wrote with ⟨other, rfl⟩ | ⟨expired, -⟩
        · rw [Function.update_self, h.held, putNX_some]
        · exact absurd expired lives
      · rw [Function.update_of_ne (Ne.symm own)]
        exact h.held
  · rcases mem_calls_of_steps steps mem with ⟨rfl, -⟩ | ⟨c, mem_c, key, op', stays⟩
    · rw [own, op] at silent
      exact absurd rfl silent
    · exact stays (h.idle c mem_c (key ▸ own) (op' ▸ op))

/-- Many clients lock and unlock the key.  A token that is stored stays there, and the lock with its
holder, as long as the lock does not time out and nobody calls `Unlock` with this token. -/
theorem lock_stays_held {k : Key} {store : Key → Option Bytes} {as bs : List Action} {s u : State}
    (r : Run step (Locking k) (State.start store) as s) {token : Bytes}
    (held : s.store k = some token)
    (idle : ∀ c ∈ s.calls, c.key = k → c.op = .unlock token → c.reply ≠ none)
    (r' : Run step (Kept k token) s bs u) : u.store k = some token := by
  have locks : Locks k s := r.invariant (Locks k)
    ⟨guarded_start StillThere k store, fun _ mem => by cases mem⟩
    fun t a u inv locking enabled => inv.step locking (steps_of_step enabled)
  have holding : Holding k token u := r'.invariant (Holding k token) ⟨locks, held, idle⟩
    fun t a u inv kept enabled => inv.step kept (steps_of_step enabled)
  exact holding.held

/-- A key with a lock. -/
def door : Key := ⟨"locks", "door"⟩

/-- A client has the lock with the token `[1]`. -/
def lockedDoor : State :=
  { State.start (fun _ => none) with store := Function.update (fun _ => none) door (some [1]) }

/-- Another client calls `Unlock` with a token of its own, and tries to take the lock. -/
theorem lock_stays_held_once : ∃ s : State,
    s.calls = [⟨door, .unlock [2], some (some [1]), some (some .noSuchLock)⟩] ∧
      s.store door = some [1] := by
  have differs : Action.call door (.unlock [2]) ≠ .call door (.unlock [1]) := by
    intro same
    cases same
  have r : Run step (Locking door) (State.start fun _ => none) [.tryLock door [1]] lockedDoor :=
    .cons _ trivial rfl .nil
  have r' : Run step (Kept door [1]) lockedDoor
      [.call door (.unlock [2]), .tryLock door [2], .locker (.enter 0), .locker (.acquire 0),
        .locker (.dec 0), .get 0 false, .put 0 .done] _ :=
    .cons _ ⟨fun _ => ⟨[2], rfl⟩, nofun, differs⟩ rfl <|
      .cons _ ⟨trivial, nofun, nofun⟩ rfl <|
      .cons _ ⟨trivial, nofun, nofun⟩ rfl <|
      .cons _ ⟨trivial, nofun, nofun⟩ rfl <|
      .cons _ ⟨trivial, nofun, nofun⟩ rfl <|
      .cons _ ⟨trivial, nofun, nofun⟩ rfl <|
      .cons _ ⟨trivial, nofun, nofun⟩ rfl .nil
  exact ⟨_, rfl, lock_stays_held r rfl (fun c mem => (List.not_mem_nil mem).elim) r'⟩

/-- The lock times out after `Unlock` has compared the token, the next client takes it, and the
deletion removes it. -/
theorem unlock_removes_next_lock : ∃ s, Run step anyAction (State.start fun _ => none)
    [.tryLock door [1], .call door (.unlock [1]), .locker (.enter 0), .locker (.acquire 0),
      .locker (.dec 0), .get 0 false, .foreign door none, .tryLock door [2], .put 0 .done] s ∧
    s.store door = none :=
  Run.exists_of_exec step anyAction _ _ (fun s => s.store door = none) (by decide +kernel)

end OlricStack.Dmap.Atomic
