import OlricStack.Lib.Run
import OlricStack.Lib.Sync
import OlricStack.Store.Record

/-!
# Shutting down the RESP server

`handle` and `Shutdown` of `internal/stringkv/resp_server.go`.  A command counts itself into a wait
group between its look at the `stopping` flag and its work, under a read lock; `Shutdown` sets the
flag, takes and releases the write lock, and only then waits for the group.  Any number of commands
and of `Shutdown` calls run concurrently, a step being one operation on what they share, and a log
records what the result is about (`shutdown_barrier`).
-/

namespace OlricStack.RESP

open Transition Sync

/-! ## What is shared -/

/-- The fields of `RESPServer` that `handle` and `Shutdown` use. -/
structure Server where
  running : Bool
  stopping : Bool
  mu : RWMutex
  /-- the counter of the wait group -/
  inflight : ℕ
deriving DecidableEq, Repr

/-! ## Commands -/

/-- What a client receives. -/
inductive Reply
  | error (text : String)
  /-- whatever the handler of the command wrote -/
  | served
deriving DecidableEq, Repr

/-- Where a `handle` call stands. -/
inductive HandlePc
  | called (args : List Bytes)
  /-- holds the read lock -/
  | locked
  /-- saw `stopping`, holds the read lock -/
  | refusing
  /-- saw no `stopping`, holds the read lock -/
  | passed
  /-- has counted itself, holds the read lock -/
  | added
  | working
  /-- the command is done, the deferred `inflight.Done` is not -/
  | worked
  | returned (r : Reply)
deriving DecidableEq, Repr

/-- What the log says about a command. -/
inductive HandleMark
  | passed
  | added
  | finished
deriving DecidableEq, Repr

/-- One step of a `handle` call. -/
def Server.stepHandle (s : Server) : HandlePc → Option (Server × HandlePc × Option HandleMark)
  | .called args =>
    if args = [] then some (s, .returned (.error "ERR empty command"), none)
    else s.mu.rLock.map fun mu => ({ s with mu := mu }, .locked, none)
  | .locked => some (if s.stopping then (s, .refusing, none) else (s, .passed, some .passed))
  | .refusing =>
    some ({ s with mu := s.mu.rUnlock }, .returned (.error "ERR server is shutting down"), none)
  | .passed => some ({ s with inflight := s.inflight + 1 }, .added, some .added)
  | .added => some ({ s with mu := s.mu.rUnlock }, .working, none)
  | .working => some (s, .worked, none)
  | .worked => some ({ s with inflight := s.inflight - 1 }, .returned .served, some .finished)
  | .returned _ => none

/-! ## Shutdown -/

/-- Where a `Shutdown` call stands. -/
inductive ShutdownPc
  | called
  /-- has set `stopping` -/
  | swapped
  /-- saw `running` -/
  | locking
  /-- holds the write lock -/
  | locked
  | unlocked
  /-- in the `select` -/
  | selecting
  | closing
  | closed
  /-- returned without closing the server -/
  | returned
deriving DecidableEq, Repr

/-- Where the goroutine of a `Shutdown` call stands. -/
inductive WaiterPc
  | absent
  | started
  /-- in `inflight.Wait` -/
  | waiting
  /-- `Wait` has returned -/
  | waited
  /-- has closed the channel `done` -/
  | done
deriving DecidableEq, Repr

/-- A call of `Shutdown` and the goroutine that it starts. -/
structure Shutdown where
  pc : ShutdownPc
  waiter : WaiterPc
  /-- the grace timer has fired -/
  fired : Bool
deriving DecidableEq, Repr

/-- What the log says about a `Shutdown` call. -/
inductive ShutdownMark
  | waitBegins
  | drained
  | fired
  | closed
deriving DecidableEq, Repr

/-- One step of a `Shutdown` call. -/
def Server.stepShutdown (s : Server) (c : Shutdown) :
    Option (Server × Shutdown × Option ShutdownMark) :=
  match c.pc with
  | .called =>
    some (if s.stopping then (s, { c with pc := .returned }, none)
      else ({ s with stopping := true }, { c with pc := .swapped }, none))
  | .swapped => some (s, { c with pc := if s.running then .locking else .returned }, none)
  | .locking => s.mu.lock.map fun mu => ({ s with mu := mu }, { c with pc := .locked }, none)
  | .locked => some ({ s with mu := s.mu.unlock }, { c with pc := .unlocked }, none)
  | .unlocked => some (s, { c with pc := .selecting, waiter := .started }, none)
  | .selecting =>
    if c.waiter = .done ∨ c.fired then some (s, { c with pc := .closing }, none) else none
  | .closing => some (s, { c with pc := .closed }, some .closed)
  | .closed => none
  | .returned => none

/-- One step of the goroutine that a `Shutdown` call starts. -/
def Server.stepWaiter (s : Server) (c : Shutdown) : Option (Shutdown × Option ShutdownMark) :=
  match c.waiter with
  | .absent => none
  | .started => some ({ c with waiter := .waiting }, some .waitBegins)
  | .waiting => if s.inflight = 0 then some ({ c with waiter := .waited }, none) else none
  | .waited => some ({ c with waiter := .done }, some .drained)
  | .done => none

/-- The timer of the `select` fires. -/
def Shutdown.fire (c : Shutdown) : Option (Shutdown × Option ShutdownMark) :=
  if c.pc = .selecting ∧ ¬c.fired then some ({ c with fired := true }, some .fired) else none

/-! ## The system -/

/-- What the calls do that others can see. -/
inductive Event
  | handle (i : ℕ) (m : HandleMark)
  | shutdown (j : ℕ) (m : ShutdownMark)
deriving DecidableEq, Repr

/-- The server with the calls of its handlers and of `Shutdown`, and what was seen of them. -/
structure State extends Server where
  handles : List HandlePc
  shutdowns : List Shutdown
  log : List Event
deriving DecidableEq, Repr

/-- What the listener, the handlers and the calls of `Shutdown` do. -/
inductive Action
  /-- `ListenAndServe` begins, and returns -/
  | listen
  | listenReturns
  /-- a command arrives, and a `Shutdown` call -/
  | command (args : List Bytes)
  | call
  | handle (i : ℕ)
  | shutdown (j : ℕ)
  | waiter (j : ℕ)
  | fire (j : ℕ)
deriving DecidableEq, Repr

/-- A server before `ListenAndServe`. -/
def State.start : State where
  running := false
  stopping := false
  mu := .unlocked
  inflight := 0
  handles := []
  shutdowns := []
  log := []

/-- The `j`th `Shutdown` call has become `c`. -/
def State.moveShutdown (s : State) (j : ℕ) (server : Server) (c : Shutdown)
    (mark : Option ShutdownMark) : State where
  toServer := server
  handles := s.handles
  shutdowns := s.shutdowns.set j c
  log := s.log ++ (mark.map (.shutdown j)).toList

/-- One step of a handler or of a `Shutdown`. -/
def step (s : State) : Action → Option State
  | .listen => some { s with running := true }
  | .listenReturns => some { s with running := false }
  | .command args => some { s with handles := s.handles ++ [.called args] }
  | .call => some { s with shutdowns := s.shutdowns ++ [⟨.called, .absent, false⟩] }
  | .handle i => do
    let pc ← s.handles[i]?
    let (server, pc', mark) ← s.stepHandle pc
    return {
      toServer := server
      handles := s.handles.set i pc'
      shutdowns := s.shutdowns
      log := s.log ++ (mark.map (.handle i)).toList }
  | .shutdown j => do
    let c ← s.shutdowns[j]?
    let (server, c', mark) ← s.stepShutdown c
    return s.moveShutdown j server c' mark
  | .waiter j => do
    let c ← s.shutdowns[j]?
    let (c', mark) ← s.stepWaiter c
    return s.moveShutdown j s.toServer c' mark
  | .fire j => do
    let c ← s.shutdowns[j]?
    let (c', mark) ← c.fire
    return s.moveShutdown j s.toServer c' mark

/-! ## What a step does -/

/-- The steps of a `handle` call, by its program counter. -/
inductive HandleStep (s : Server) : HandlePc → Server → HandlePc → Option HandleMark → Prop
  | empty : HandleStep s (.called []) s (.returned (.error "ERR empty command")) none
  | lock {args : List Bytes} {mu : RWMutex} (locks : s.mu.rLock = some mu) :
      HandleStep s (.called args) { s with mu := mu } .locked none
  | refuse (stopping : s.stopping = true) : HandleStep s .locked s .refusing none
  | pass (stopping : s.stopping = false) : HandleStep s .locked s .passed (some .passed)
  | leave : HandleStep s .refusing { s with mu := s.mu.rUnlock }
      (.returned (.error "ERR server is shutting down")) none
  | add : HandleStep s .passed { s with inflight := s.inflight + 1 } .added (some .added)
  | unlock : HandleStep s .added { s with mu := s.mu.rUnlock } .working none
  | work : HandleStep s .working s .worked none
  | finish : HandleStep s .worked { s with inflight := s.inflight - 1 } (.returned .served)
      (some .finished)

theorem Server.stepHandle_spec {s s' : Server} {pc pc' : HandlePc} {mark : Option HandleMark}
    (h : s.stepHandle pc = some (s', pc', mark)) : HandleStep s pc s' pc' mark := by
  cases pc with
  | called args =>
    simp only [stepHandle] at h
    split_ifs at h with none
    · cases h
      subst none
      exact .empty
    · obtain ⟨mu, locks, h⟩ := Option.map_eq_some_iff.1 h
      cases h
      exact .lock locks
  | locked =>
    simp only [stepHandle] at h
    split_ifs at h with stopping
    · cases h
      exact .refuse stopping
    · cases h
      exact .pass (Bool.eq_false_iff.2 stopping)
  | refusing =>
    cases h
    exact .leave
  | passed =>
    cases h
    exact .add
  | added =>
    cases h
    exact .unlock
  | working =>
    cases h
    exact .work
  | worked =>
    cases h
    exact .finish
  | returned r => cases h

/-- The steps of a `Shutdown` call, of its goroutine and of its timer. -/
inductive ShutdownStep (s : Server) :
    Shutdown → Server → Shutdown → Option ShutdownMark → Prop
  | again {w : WaiterPc} {f : Bool} (stopping : s.stopping = true) :
      ShutdownStep s ⟨.called, w, f⟩ s ⟨.returned, w, f⟩ none
  | swap {w : WaiterPc} {f : Bool} :
      ShutdownStep s ⟨.called, w, f⟩ { s with stopping := true } ⟨.swapped, w, f⟩ none
  | load {w : WaiterPc} {f : Bool} {pc : ShutdownPc} (next : pc = .locking ∨ pc = .returned) :
      ShutdownStep s ⟨.swapped, w, f⟩ s ⟨pc, w, f⟩ none
  | lock {w : WaiterPc} {f : Bool} {mu : RWMutex} (locks : s.mu.lock = some mu) :
      ShutdownStep s ⟨.locking, w, f⟩ { s with mu := mu } ⟨.locked, w, f⟩ none
  | unlock {w : WaiterPc} {f : Bool} :
      ShutdownStep s ⟨.locked, w, f⟩ { s with mu := s.mu.unlock } ⟨.unlocked, w, f⟩ none
  | start {w : WaiterPc} {f : Bool} :
      ShutdownStep s ⟨.unlocked, w, f⟩ s ⟨.selecting, .started, f⟩ none
  | select {w : WaiterPc} {f : Bool} (ready : w = .done ∨ f = true) :
      ShutdownStep s ⟨.selecting, w, f⟩ s ⟨.closing, w, f⟩ none
  | close {w : WaiterPc} {f : Bool} :
      ShutdownStep s ⟨.closing, w, f⟩ s ⟨.closed, w, f⟩ (some .closed)
  | begins {pc : ShutdownPc} {f : Bool} :
      ShutdownStep s ⟨pc, .started, f⟩ s ⟨pc, .waiting, f⟩ (some .waitBegins)
  | waits {pc : ShutdownPc} {f : Bool} (zero : s.inflight = 0) :
      ShutdownStep s ⟨pc, .waiting, f⟩ s ⟨pc, .waited, f⟩ none
  | drains {pc : ShutdownPc} {f : Bool} :
      ShutdownStep s ⟨pc, .waited, f⟩ s ⟨pc, .done, f⟩ (some .drained)
  | fires {w : WaiterPc} :
      ShutdownStep s ⟨.selecting, w, false⟩ s ⟨.selecting, w, true⟩ (some .fired)

theorem Server.stepShutdown_spec {s s' : Server} {c c' : Shutdown} {mark : Option ShutdownMark}
    (h : s.stepShutdown c = some (s', c', mark)) : ShutdownStep s c s' c' mark := by
  obtain ⟨pc, w, f⟩ := c
  cases pc with
  | called =>
    simp only [stepShutdown] at h
    split_ifs at h with stopping
    · cases h
      exact .again stopping
    · cases h
      exact .swap
  | swapped =>
    cases h
    refine .load ?_
    split_ifs
    · exact .inl rfl
    · exact .inr rfl
  | locking =>
    obtain ⟨mu, locks, h⟩ := Option.map_eq_some_iff.1 h
    cases h
    exact .lock locks
  | locked =>
    cases h
    exact .unlock
  | unlocked =>
    cases h
    exact .start
  | selecting =>
    simp only [stepShutdown] at h
    split_ifs at h with ready
    cases h
    exact .select ready
  | closing =>
    cases h
    exact .close
  | closed | returned => cases h

theorem Server.stepWaiter_spec {s : Server} {c c' : Shutdown} {mark : Option ShutdownMark}
    (h : s.stepWaiter c = some (c', mark)) : ShutdownStep s c s c' mark := by
  obtain ⟨pc, w, f⟩ := c
  cases w with
  | started =>
    cases h
    exact .begins
  | waiting =>
    simp only [stepWaiter] at h
    split_ifs at h with zero
    cases h
    exact .waits zero
  | waited =>
    cases h
    exact .drains
  | absent | done => cases h

theorem Shutdown.fire_spec {s : Server} {c c' : Shutdown} {mark : Option ShutdownMark}
    (h : c.fire = some (c', mark)) : ShutdownStep s c s c' mark := by
  obtain ⟨pc, w, f⟩ := c
  simp only [fire] at h
  split_ifs at h with armed
  cases h
  obtain ⟨rfl, unfired⟩ := armed
  obtain rfl : f = false := Bool.eq_false_iff.2 unfired
  exact .fires

/-- The actions. -/
inductive Step (s : State) : State → Prop
  | running (running : Bool) : Step s { s with running := running }
  | command (args : List Bytes) : Step s { s with handles := s.handles ++ [.called args] }
  | call : Step s { s with shutdowns := s.shutdowns ++ [⟨.called, .absent, false⟩] }
  | handle {i : ℕ} {server : Server} {pc pc' : HandlePc} {mark : Option HandleMark}
      (at_i : s.handles[i]? = some pc) (does : HandleStep s.toServer pc server pc' mark) :
      Step s ⟨server, s.handles.set i pc', s.shutdowns,
        s.log ++ (mark.map (Event.handle i)).toList⟩
  | shutdown {j : ℕ} {server : Server} {c c' : Shutdown} {mark : Option ShutdownMark}
      (at_j : s.shutdowns[j]? = some c) (does : ShutdownStep s.toServer c server c' mark) :
      Step s (s.moveShutdown j server c' mark)

theorem step_spec {s u : State} {a : Action} (h : step s a = some u) : Step s u := by
  cases a with
  | listen =>
    cases h
    exact .running true
  | listenReturns =>
    cases h
    exact .running false
  | command args =>
    cases h
    exact .command args
  | call =>
    cases h
    exact .call
  | handle i =>
    obtain ⟨pc, at_i, h⟩ := Option.bind_eq_some_iff.1 h
    obtain ⟨⟨server, pc', mark⟩, does, h⟩ := Option.bind_eq_some_iff.1 h
    cases h
    exact .handle at_i (Server.stepHandle_spec does)
  | shutdown j =>
    obtain ⟨c, at_j, h⟩ := Option.bind_eq_some_iff.1 h
    obtain ⟨⟨server, c', mark⟩, does, h⟩ := Option.bind_eq_some_iff.1 h
    cases h
    exact .shutdown at_j (Server.stepShutdown_spec does)
  | waiter j =>
    obtain ⟨c, at_j, h⟩ := Option.bind_eq_some_iff.1 h
    obtain ⟨⟨c', mark⟩, does, h⟩ := Option.bind_eq_some_iff.1 h
    cases h
    exact .shutdown at_j (Server.stepWaiter_spec does)
  | fire j =>
    obtain ⟨c, at_j, h⟩ := Option.bind_eq_some_iff.1 h
    obtain ⟨⟨c', mark⟩, does, h⟩ := Option.bind_eq_some_iff.1 h
    cases h
    exact .shutdown at_j (Shutdown.fire_spec does)

/-! ## The mutex, the counter and the barrier -/

/-- Holds the read lock. -/
def HandlePc.holdsRead : HandlePc → Bool
  | .locked | .refusing | .passed | .added => true
  | _ => false

/-- Is counted in the wait group. -/
def HandlePc.counted : HandlePc → Bool
  | .added | .working | .worked => true
  | _ => false

/-- The call has the write lock. -/
def ShutdownPc.holdsWrite : ShutdownPc → Bool
  | .locked => true
  | _ => false

/-- Has held the write lock. -/
def ShutdownPc.pastLock : ShutdownPc → Bool
  | .locked | .unlocked | .selecting | .closing | .closed => true
  | _ => false

/-- Has started its goroutine. -/
def ShutdownPc.pastStart : ShutdownPc → Bool
  | .selecting | .closing | .closed => true
  | _ => false

theorem ShutdownPc.pastLock_of_pastStart {pc : ShutdownPc} (h : pc.pastStart = true) :
    pc.pastLock = true := by
  cases pc <;> first | rfl | cases h

/-- `Wait` has returned. -/
def WaiterPc.pastWait : WaiterPc → Bool
  | .waited | .done => true
  | _ => false

/-- What holds of a `Shutdown` call: behind its write lock no command stands between the look at
`stopping` and `inflight.Add`, and behind its `Wait` none is counted. -/
structure Shutdown.Sound (s : Server) (handles : List HandlePc) (c : Shutdown) : Prop where
  stopping : c.pc ≠ .called → s.stopping = true
  barrier : c.pc.pastLock = true → ∀ pc ∈ handles, pc ≠ .passed
  started : c.waiter ≠ .absent → c.pc.pastStart = true
  waited : c.waiter.pastWait = true → s.inflight = 0

/-- What holds in every run: the mutex and the wait group count the handlers. -/
structure Inv (s : State) : Prop where
  mu : s.mu.HeldBy (s.handles.countP HandlePc.holdsRead)
    (s.shutdowns.countP fun c => c.pc.holdsWrite)
  inflight : s.inflight = s.handles.countP HandlePc.counted
  sound : ∀ c ∈ s.shutdowns, c.Sound s.toServer s.handles

variable {s u : State}

theorem Shutdown.Sound.stopping_of_pastLock {s : Server} {handles : List HandlePc} {c : Shutdown}
    (sound : c.Sound s handles) (past : c.pc.pastLock = true) : s.stopping = true := by
  refine sound.stopping fun called => ?_
  rw [called] at past
  cases past

theorem WaiterPc.ne_absent_of_pastWait {w : WaiterPc} (h : w.pastWait = true) : w ≠ .absent := by
  rintro rfl
  cases h

theorem inv_start : Inv .start :=
  ⟨RWMutex.heldBy_unlocked, rfl, fun _ member => absurd member List.not_mem_nil⟩

/-- The threads that hold the lock or are counted, after a step of a command. -/
theorem HandleStep.counts {s s' : Server} {pc pc' : HandlePc} {mark : Option HandleMark}
    (does : HandleStep s pc s' pc' mark) {l : List HandlePc} {i w : ℕ} (at_i : l[i]? = some pc)
    (mu : s.mu.HeldBy (l.countP HandlePc.holdsRead) w)
    (inflight : s.inflight = l.countP HandlePc.counted) :
    s'.mu.HeldBy ((l.set i pc').countP HandlePc.holdsRead) w ∧
      s'.inflight = (l.set i pc').countP HandlePc.counted := by
  cases does with
  | empty | refuse | pass | work =>
    rw [countP_set_same _ at_i, countP_set_same _ at_i]
    · exact ⟨mu, inflight⟩
    all_goals rfl
  | lock locks =>
    rw [countP_set_enter _ at_i, countP_set_same _ at_i]
    · exact ⟨mu.rLock locks, inflight⟩
    all_goals rfl
  | leave | unlock =>
    refine ⟨RWMutex.HeldBy.rUnlock ?_, ?_⟩
    · rwa [← countP_set_leave _ at_i rfl]
      rfl
    · rwa [countP_set_same _ at_i]
      rfl
  | add =>
    rw [countP_set_same _ at_i, countP_set_enter _ at_i]
    · exact ⟨mu, congrArg (· + 1) inflight⟩
    all_goals rfl
  | finish =>
    have left : l.countP HandlePc.counted =
        (l.set i (.returned .served)).countP HandlePc.counted + 1 :=
      countP_set_leave _ at_i rfl rfl
    rw [countP_set_same _ at_i]
    · exact ⟨mu, show s.inflight - 1 = _ by omega⟩
    · rfl

/-- A step of a command leaves what holds of a `Shutdown` call. -/
theorem Shutdown.Sound.handle {s s' : Server} {pc pc' : HandlePc} {mark : Option HandleMark}
    {c : Shutdown} {l : List HandlePc} {i : ℕ} (sound : c.Sound s l) (at_i : l[i]? = some pc)
    (does : HandleStep s pc s' pc' mark) : c.Sound s' (l.set i pc') where
  stopping begun := by
    have := sound.stopping begun
    cases does <;> exact this
  barrier past := by
    refine forall_mem_set (sound.barrier past) ?_
    cases does with
    | pass going =>
      rw [sound.stopping_of_pastLock past] at going
      cases going
    | _ => exact HandlePc.noConfusion
  started := sound.started
  waited past := by
    have none := sound.waited past
    cases does with
    | add =>
      have started := sound.started (WaiterPc.ne_absent_of_pastWait past)
      have barrier := sound.barrier (ShutdownPc.pastLock_of_pastStart started)
      exact absurd rfl (barrier _ (List.mem_of_getElem? at_i))
    | finish =>
      show s.inflight - 1 = 0
      rw [none]
    | _ => exact none

theorem Inv.handle (inv : Inv s) {i : ℕ} {server : Server} {pc pc' : HandlePc}
    {mark : Option HandleMark} (at_i : s.handles[i]? = some pc)
    (does : HandleStep s.toServer pc server pc' mark) {log : List Event} :
    Inv ⟨server, s.handles.set i pc', s.shutdowns, log⟩ := by
  obtain ⟨mu, inflight⟩ := does.counts at_i inv.mu inv.inflight
  exact ⟨mu, inflight, fun c member => (inv.sound c member).handle at_i does⟩

/-- A `Shutdown` call leaves what holds of another. -/
theorem Shutdown.Sound.other {s s' : Server} {l : List HandlePc} {c c' d : Shutdown}
    {mark : Option ShutdownMark} (sound : d.Sound s l) (does : ShutdownStep s c s' c' mark) :
    d.Sound s' l where
  stopping begun := by
    have := sound.stopping begun
    cases does with
    | swap => rfl
    | _ => exact this
  barrier := sound.barrier
  started := sound.started
  waited past := by
    have := sound.waited past
    cases does <;> exact this

/-- What holds of a `Shutdown` call after its own step. -/
theorem Shutdown.Sound.step {s s' : Server} {l : List HandlePc} {c c' : Shutdown} {w : ℕ}
    {mark : Option ShutdownMark} (sound : c.Sound s l)
    (mu : s.mu.HeldBy (l.countP HandlePc.holdsRead) w) (does : ShutdownStep s c s' c' mark) :
    c'.Sound s' l := by
  cases does with
  | again stopping =>
    exact ⟨fun _ => stopping, fun past => absurd past Bool.false_ne_true, sound.started,
      sound.waited⟩
  | swap =>
    exact ⟨fun _ => rfl, fun past => absurd past Bool.false_ne_true, sound.started, sound.waited⟩
  | load next =>
    have stopping := sound.stopping (by rintro ⟨⟩)
    rcases next with rfl | rfl
    all_goals
      exact ⟨fun _ => stopping, fun past => absurd past Bool.false_ne_true, sound.started,
        sound.waited⟩
  | lock locks =>
    refine ⟨fun _ => sound.stopping (by rintro ⟨⟩), fun _ pc member passed => ?_, sound.started,
      sound.waited⟩
    have none := List.countP_eq_zero.1 (mu.lock locks).1 pc member
    rw [passed] at none
    exact none rfl
  | unlock =>
    exact ⟨fun _ => sound.stopping (by rintro ⟨⟩), fun _ => sound.barrier rfl, sound.started,
      sound.waited⟩
  | start =>
    exact ⟨fun _ => sound.stopping (by rintro ⟨⟩), fun _ => sound.barrier rfl, fun _ => rfl,
      fun past => absurd past Bool.false_ne_true⟩
  | select | close | fires =>
    exact ⟨fun _ => sound.stopping (by rintro ⟨⟩), fun _ => sound.barrier rfl, fun _ => rfl,
      sound.waited⟩
  | begins =>
    exact ⟨sound.stopping, sound.barrier, fun _ => sound.started (by rintro ⟨⟩),
      fun past => absurd past Bool.false_ne_true⟩
  | waits zero =>
    exact ⟨sound.stopping, sound.barrier, fun _ => sound.started (by rintro ⟨⟩), fun _ => zero⟩
  | drains =>
    exact ⟨sound.stopping, sound.barrier, fun _ => sound.started (by rintro ⟨⟩),
      fun _ => sound.waited rfl⟩

/-- The call that holds the write lock, after a step of a `Shutdown` call. -/
theorem ShutdownStep.counts {s s' : Server} {c c' : Shutdown} {mark : Option ShutdownMark}
    (does : ShutdownStep s c s' c' mark) {l : List Shutdown} {j r : ℕ} (at_j : l[j]? = some c)
    (mu : s.mu.HeldBy r (l.countP fun c => c.pc.holdsWrite)) :
    s'.mu.HeldBy r ((l.set j c').countP fun c => c.pc.holdsWrite) ∧
      s'.inflight = s.inflight := by
  cases does with
  | lock locks =>
    rw [countP_set_enter _ at_j]
    · exact ⟨(mu.lock locks).2, rfl⟩
    all_goals rfl
  | unlock =>
    refine ⟨RWMutex.HeldBy.unlock ?_, rfl⟩
    rwa [← countP_set_leave _ at_j rfl]
    rfl
  | load next =>
    rw [countP_set_same _ at_j]
    · exact ⟨mu, rfl⟩
    · rcases next with rfl | rfl <;> rfl
  | _ =>
    rw [countP_set_same _ at_j]
    · exact ⟨mu, rfl⟩
    · rfl

theorem Inv.shutdown (inv : Inv s) {j : ℕ} {server : Server} {c c' : Shutdown}
    {mark : Option ShutdownMark} (at_j : s.shutdowns[j]? = some c)
    (does : ShutdownStep s.toServer c server c' mark) : Inv (s.moveShutdown j server c' mark) := by
  obtain ⟨mu, inflight⟩ := does.counts at_j inv.mu
  refine ⟨mu, inflight.trans inv.inflight, ?_⟩
  refine forall_mem_set (fun d member => (inv.sound d member).other does) ?_
  exact (inv.sound c (List.mem_of_getElem? at_j)).step inv.mu does

theorem Inv.step (inv : Inv s) (does : Step s u) : Inv u := by
  cases does with
  | running running => exact ⟨inv.mu, inv.inflight, fun c member =>
      have sound := inv.sound c member
      ⟨sound.stopping, sound.barrier, sound.started, sound.waited⟩⟩
  | command args =>
    refine ⟨?_, ?_, fun c member => ?_⟩
    · rw [countP_snoc HandlePc.holdsRead _ rfl]
      exact inv.mu
    · rw [countP_snoc HandlePc.counted _ rfl]
      exact inv.inflight
    · have sound := inv.sound c member
      exact ⟨sound.stopping, fun past => forall_mem_snoc (sound.barrier past) (by rintro ⟨⟩),
        sound.started, sound.waited⟩
  | call =>
    refine ⟨?_, inv.inflight, forall_mem_snoc inv.sound ?_⟩
    · rw [countP_snoc _ _ rfl]
      exact inv.mu
    · exact ⟨fun begun => absurd rfl begun, fun past => absurd past Bool.false_ne_true,
        fun begun => absurd rfl begun, fun past => absurd past Bool.false_ne_true⟩
  | handle at_i does => exact inv.handle at_i does
  | shutdown at_j does => exact inv.shutdown at_j does

/-! ## The log -/

/-- A `Shutdown` call waits, or has waited. -/
def Waits (s : State) : Prop := ∃ c ∈ s.shutdowns, c.waiter ≠ .absent

/-- A `Shutdown` has waited for the handlers. -/
def Waited (s : State) : Prop := ∃ c ∈ s.shutdowns, c.waiter.pastWait = true

/-- No command is between the look at `stopping` and `inflight.Add`, and none passes it. -/
theorem Inv.barred (inv : Inv s) (waits : Waits s) :
    s.stopping = true ∧ ∀ pc ∈ s.handles, pc ≠ .passed := by
  obtain ⟨c, member, started⟩ := waits
  have sound := inv.sound c member
  have past := ShutdownPc.pastLock_of_pastStart (sound.started started)
  exact ⟨sound.stopping_of_pastLock past, sound.barrier past⟩

theorem Waited.waits (waited : Waited s) : Waits s := by
  obtain ⟨c, member, past⟩ := waited
  exact ⟨c, member, WaiterPc.ne_absent_of_pastWait past⟩

/-- The command has passed the look at `stopping` and is not finished. -/
def HandlePc.active (pc : HandlePc) : Prop := pc = .passed ∨ pc.counted = true

theorem Inv.not_active (inv : Inv s) (waited : Waited s) {pc : HandlePc} (member : pc ∈ s.handles) :
    ¬pc.active := by
  rintro (passed | counted)
  · exact (inv.barred waited.waits).2 pc member passed
  · obtain ⟨c, at_c, past⟩ := waited
    have zero := inv.inflight.symm.trans ((inv.sound c at_c).waited past)
    exact List.countP_eq_zero.1 zero pc member counted

/-- What is in the log before an event. -/
def Event.Follows (before : List Event) : Event → Prop
  | .handle _ .passed => ∀ j, .shutdown j .drained ∉ before
  | .handle _ .added => ∀ j, .shutdown j .waitBegins ∉ before
  | .handle _ .finished => True
  | .shutdown j .closed =>
    (.shutdown j .drained ∈ before ∨ .shutdown j .fired ∈ before) ∧
      (.shutdown j .drained ∈ before →
        ∀ i, .handle i .passed ∈ before → .handle i .finished ∈ before)
  | .shutdown _ _ => True

/-- The `j`th `Shutdown` call, by what the log says. -/
structure Shutdown.Marked (log : List Event) (j : ℕ) (c : Shutdown) : Prop where
  drained : c.waiter = .done → .shutdown j .drained ∈ log
  fired : c.fired = true → .shutdown j .fired ∈ log
  closing : c.pc = .closing → c.waiter = .done ∨ c.fired = true

/-- The log tells what the calls have done, in their order. -/
structure Logged (s : State) : Prop where
  active : ∀ i, .handle i .passed ∈ s.log →
    .handle i .finished ∈ s.log ∨ ∃ pc, s.handles[i]? = some pc ∧ pc.active
  began : ∀ j, .shutdown j .waitBegins ∈ s.log → Waits s
  drained : ∀ j, .shutdown j .drained ∈ s.log → Waited s
  marked : ∀ j (c : Shutdown), s.shutdowns[j]? = some c → c.Marked s.log j
  ordered : ∀ before e after, s.log = before ++ e :: after → e.Follows before

theorem logged_start : Logged .start where
  active _ h := absurd h List.not_mem_nil
  began _ h := absurd h List.not_mem_nil
  drained _ h := absurd h List.not_mem_nil
  marked _ _ h := by cases h
  ordered before e after h := absurd h.symm (by simp [State.start])

section Marks

variable {μ : Type} {log : List Event} {mark : Option μ} {f : μ → Event}

theorem mem_marks {e : Event} :
    e ∈ log ++ (mark.map f).toList ↔ e ∈ log ∨ ∃ m, mark = some m ∧ f m = e := by
  simp [List.mem_append]

theorem ordered_marks (ordered : ∀ before e after, log = before ++ e :: after → e.Follows before)
    (new : ∀ m, mark = some m → (f m).Follows log) (before : List Event) (e : Event)
    (after : List Event) (h : log ++ (mark.map f).toList = before ++ e :: after) :
    e.Follows before := by
  cases mark with
  | none => exact ordered before e after (by simpa using h)
  | some m =>
    rcases snoc_eq_split_cases h with ⟨after', old⟩ | ⟨rfl, rfl⟩
    · exact ordered before e after' old
    · exact new m rfl

theorem Shutdown.Marked.marks {j : ℕ} {c : Shutdown} (h : c.Marked log j) :
    c.Marked (log ++ (mark.map f).toList) j :=
  ⟨fun done => mem_marks.2 (.inl (h.drained done)), fun fired => mem_marks.2 (.inl (h.fired fired)),
    h.closing⟩

end Marks

/-- A command is active until it is finished. -/
theorem HandleStep.active {s s' : Server} {pc pc' : HandlePc} {mark : Option HandleMark}
    (does : HandleStep s pc s' pc' mark) (active : pc.active) :
    pc'.active ∨ mark = some .finished := by
  cases does with
  | pass => exact .inl (.inl rfl)
  | add | unlock | work => exact .inl (.inr rfl)
  | finish => exact .inr rfl
  | empty | lock | refuse | leave => rcases active with h | h <;> cases h

theorem HandleStep.of_passed {s s' : Server} {pc pc' : HandlePc}
    (does : HandleStep s pc s' pc' (some .passed)) : s.stopping = false ∧ pc' = .passed := by
  cases does with
  | pass going => exact ⟨going, rfl⟩

theorem HandleStep.of_added {s s' : Server} {pc pc' : HandlePc}
    (does : HandleStep s pc s' pc' (some .added)) : pc = .passed := by
  cases does
  rfl

theorem Logged.handle (inv : Inv s) (logged : Logged s) {i : ℕ} {server : Server}
    {pc pc' : HandlePc} {mark : Option HandleMark} (at_i : s.handles[i]? = some pc)
    (does : HandleStep s.toServer pc server pc' mark) :
    Logged ⟨server, s.handles.set i pc', s.shutdowns,
      s.log ++ (mark.map (Event.handle i)).toList⟩ := by
  have at_i' : (s.handles.set i pc')[i]? = some pc' :=
    List.getElem?_set_self (List.getElem?_eq_some_iff.1 at_i).1
  refine ⟨fun k passed => ?_, fun j began => ?_, fun j drained => ?_,
    fun j c at_j => (logged.marked j c at_j).marks, ordered_marks logged.ordered ?_⟩
  · rcases mem_marks.1 passed with old | ⟨m, marked, same⟩
    · rcases logged.active k old with finished | ⟨pc₀, at_k, active⟩
      · exact .inl (mem_marks.2 (.inl finished))
      · by_cases same : k = i
        · subst same
          obtain rfl := Option.some.inj (at_k.symm.trans at_i)
          rcases does.active active with active | finished
          · exact .inr ⟨pc', at_i', active⟩
          · exact .inl (mem_marks.2 (.inr ⟨_, finished, rfl⟩))
        · exact .inr ⟨pc₀, (List.getElem?_set_ne (Ne.symm same)).trans at_k, active⟩
    · cases same
      subst marked
      exact .inr ⟨pc', at_i', .inl does.of_passed.2⟩
  · rcases mem_marks.1 began with old | ⟨m, -, same⟩
    · exact logged.began j old
    · cases same
  · rcases mem_marks.1 drained with old | ⟨m, -, same⟩
    · exact logged.drained j old
    · cases same
  · rintro m rfl
    cases m with
    | passed =>
      intro j drained
      have stopping := (inv.barred (logged.drained j drained).waits).1
      rw [does.of_passed.1] at stopping
      cases stopping
    | added =>
      intro j began
      exact (inv.barred (logged.began j began)).2 pc (List.mem_of_getElem? at_i) does.of_added
    | finished => trivial

section

variable {s s' : Server} {c c' : Shutdown} {mark : Option ShutdownMark}

theorem ShutdownStep.waiter_ne_absent (does : ShutdownStep s c s' c' mark)
    (started : c.waiter ≠ .absent) : c'.waiter ≠ .absent := by
  cases does with
  | start | begins | waits | drains => exact WaiterPc.noConfusion
  | _ => exact started

theorem ShutdownStep.pastWait (does : ShutdownStep s c s' c' mark)
    (started : c.waiter ≠ .absent → c.pc.pastStart = true) (past : c.waiter.pastWait = true) :
    c'.waiter.pastWait = true := by
  cases does with
  | start => exact absurd (started (WaiterPc.ne_absent_of_pastWait past)) Bool.false_ne_true
  | begins => cases past
  | waits | drains => rfl
  | _ => exact past

theorem ShutdownStep.of_waitBegins (does : ShutdownStep s c s' c' (some .waitBegins)) :
    c'.waiter ≠ .absent := by
  cases does
  exact WaiterPc.noConfusion

theorem ShutdownStep.of_drained (does : ShutdownStep s c s' c' (some .drained)) :
    c'.waiter.pastWait = true := by
  cases does
  rfl

theorem ShutdownStep.of_closed (does : ShutdownStep s c s' c' (some .closed)) :
    c.pc = .closing := by
  cases does
  rfl

end

theorem Shutdown.Marked.step {s s' : Server} {c c' : Shutdown} {mark : Option ShutdownMark}
    {log : List Event} {j : ℕ} (marked : c.Marked log j) (does : ShutdownStep s c s' c' mark) :
    c'.Marked (log ++ (mark.map (Event.shutdown j)).toList) j := by
  have old : c.Marked (log ++ (mark.map (Event.shutdown j)).toList) j := marked.marks
  cases does with
  | again | swap | lock | unlock | close =>
    exact ⟨old.drained, old.fired, ShutdownPc.noConfusion⟩
  | load next =>
    refine ⟨old.drained, old.fired, ?_⟩
    rcases next with rfl | rfl <;> exact ShutdownPc.noConfusion
  | start => exact ⟨WaiterPc.noConfusion, old.fired, ShutdownPc.noConfusion⟩
  | select ready => exact ⟨old.drained, old.fired, fun _ => ready⟩
  | begins | waits =>
    refine ⟨WaiterPc.noConfusion, old.fired, fun closing => ?_⟩
    rcases old.closing closing with h | h
    · cases h
    · exact .inr h
  | drains => exact ⟨fun _ => mem_marks.2 (.inr ⟨_, rfl, rfl⟩), old.fired, fun _ => .inl rfl⟩
  | fires => exact ⟨old.drained, fun _ => mem_marks.2 (.inr ⟨_, rfl, rfl⟩), ShutdownPc.noConfusion⟩

theorem Logged.shutdown (inv : Inv s) (logged : Logged s) {j : ℕ} {server : Server}
    {c c' : Shutdown} {mark : Option ShutdownMark} (at_j : s.shutdowns[j]? = some c)
    (does : ShutdownStep s.toServer c server c' mark) :
    Logged (s.moveShutdown j server c' mark) := by
  have started := (inv.sound c (List.mem_of_getElem? at_j)).started
  have moved : c' ∈ s.shutdowns.set j c' :=
    List.mem_of_getElem? (List.getElem?_set_self (List.getElem?_eq_some_iff.1 at_j).1)
  refine ⟨fun i passed => ?_, fun k began => ?_, fun k drained => ?_, fun k d at_k => ?_,
    ordered_marks logged.ordered ?_⟩
  · rcases mem_marks.1 passed with old | ⟨m, -, same⟩
    · exact (logged.active i old).imp_left fun finished => mem_marks.2 (.inl finished)
    · cases same
  · rcases mem_marks.1 began with old | ⟨m, marked, same⟩
    · exact exists_mem_set at_j does.waiter_ne_absent (logged.began k old)
    · cases same
      subst marked
      exact ⟨c', moved, does.of_waitBegins⟩
  · rcases mem_marks.1 drained with old | ⟨m, marked, same⟩
    · exact exists_mem_set at_j (does.pastWait started) (logged.drained k old)
    · cases same
      subst marked
      exact ⟨c', moved, does.of_drained⟩
  · rcases getElem?_set_cases at_k with ⟨rfl, rfl⟩ | ⟨-, at_k⟩
    · exact (logged.marked k c at_j).step does
    · exact (logged.marked k d at_k).marks
  · rintro m rfl
    cases m with
    | closed =>
      have marked := logged.marked j c at_j
      refine ⟨(marked.closing does.of_closed).imp marked.drained marked.fired, ?_⟩
      intro drained i passed
      rcases logged.active i passed with finished | ⟨pc, at_i, active⟩
      · exact finished
      · exact absurd active (inv.not_active (logged.drained j drained) (List.mem_of_getElem? at_i))
    | waitBegins | drained | fired => trivial

theorem Logged.step (inv : Inv s) (logged : Logged s) (does : Step s u) : Logged u := by
  cases does with
  | running =>
    exact ⟨logged.active, logged.began, logged.drained, logged.marked, logged.ordered⟩
  | command args =>
    refine ⟨fun i passed => (logged.active i passed).imp_right ?_, logged.began, logged.drained,
      logged.marked, logged.ordered⟩
    rintro ⟨pc, at_i, active⟩
    refine ⟨pc, ?_, active⟩
    rw [List.getElem?_append_left (List.getElem?_eq_some_iff.1 at_i).1]
    exact at_i
  | call =>
    refine ⟨logged.active, fun j began => ?_, fun j drained => ?_, fun j c at_j => ?_,
      logged.ordered⟩
    · obtain ⟨c, member, waits⟩ := logged.began j began
      exact ⟨c, List.mem_append_left _ member, waits⟩
    · obtain ⟨c, member, waited⟩ := logged.drained j drained
      exact ⟨c, List.mem_append_left _ member, waited⟩
    · rcases getElem?_snoc_cases at_j with rfl | at_j
      · exact ⟨WaiterPc.noConfusion, Bool.noConfusion, ShutdownPc.noConfusion⟩
      · exact logged.marked j c at_j
  | handle at_i does => exact logged.handle inv at_i does
  | shutdown at_j does => exact logged.shutdown inv at_j does

theorem inv_of_run {as : List Action} (run : Run step anyAction .start as s) :
    Inv s ∧ Logged s := by
  apply run.invariant (fun s => Inv s ∧ Logged s) ⟨inv_start, logged_start⟩
  rintro s a u ⟨inv, logged⟩ - enabled
  exact ⟨inv.step (step_spec enabled), logged.step inv (step_spec enabled)⟩

/-! ## The barrier -/

/-- The grace timer of the `j`th `Shutdown` call fires before its `Wait` is over. -/
def FiresFirst (j : ℕ) (log : List Event) : Prop :=
  ∃ before after, log = before ++ .shutdown j .fired :: after ∧ .shutdown j .drained ∉ before

/-- For every interleaving of any number of commands and `Shutdown` calls: no command counts itself
after a `Wait` has begun; and when a `Shutdown` call whose grace timer did not fire first closes the
server, every command that passed the look at `stopping` has finished and none passes it later. -/
theorem shutdown_barrier {as : List Action} {s : State} (run : Run step anyAction .start as s) :
    (∀ before j after, s.log = before ++ .shutdown j .waitBegins :: after →
      ∀ i, .handle i .added ∉ after) ∧
    ∀ before j after, s.log = before ++ .shutdown j .closed :: after → ¬FiresFirst j before →
      (∀ i, .handle i .passed ∈ before → .handle i .finished ∈ before) ∧
        ∀ i, .handle i .passed ∉ after := by
  have ordered := (inv_of_run run).2.ordered
  constructor
  · intro before j after log i added
    obtain ⟨middle, rest, rfl⟩ := List.append_of_mem added
    have follows := ordered (before ++ .shutdown j .waitBegins :: middle)
      (.handle i .added) rest (by simp [log])
    exact follows j (by simp)
  · intro before j after log slow
    have closed := ordered before _ after log
    have drained : .shutdown j .drained ∈ before := by
      by_contra none
      rcases closed.1 with drained | fired
      · exact none drained
      · obtain ⟨first, rest, split⟩ := List.append_of_mem fired
        refine slow ⟨first, rest, split, fun drained => none ?_⟩
        rw [split]
        exact List.mem_append_left _ drained
    refine ⟨closed.2 drained, fun i passed => ?_⟩
    obtain ⟨middle, rest, rfl⟩ := List.append_of_mem passed
    have follows := ordered (before ++ .shutdown j .closed :: middle)
      (.handle i .passed) rest (by simp [log])
    exact follows j (List.mem_append_left _ drained)

/-- `Shutdown` is called while one command works; another that comes later is refused; the first one
finishes, the wait ends and the server is closed. -/
def drainingRun : List Action :=
  [.listen, .command [[71]], .handle 0, .handle 0, .handle 0, .call, .shutdown 0, .shutdown 0,
    .handle 0, .shutdown 0, .shutdown 0, .shutdown 0, .waiter 0, .command [[71]], .handle 1,
    .handle 1, .handle 1, .handle 0, .handle 0, .waiter 0, .waiter 0, .shutdown 0, .shutdown 0]

/-- A handler that `Shutdown` waits for. -/
def drainingLog : List Event :=
  [.handle 0 .passed, .handle 0 .added, .shutdown 0 .waitBegins, .handle 0 .finished,
    .shutdown 0 .drained]

theorem shutdown_barrier_draining :
    ∃ s, Run step anyAction .start drainingRun s ∧
      s.handles = [.returned .served, .returned (.error "ERR server is shutting down")] ∧
      s.log = drainingLog ++ [.shutdown 0 .closed] ∧ ¬FiresFirst 0 drainingLog ∧
      ∀ i, .handle i .passed ∈ drainingLog → .handle i .finished ∈ drainingLog := by
  obtain ⟨s, run, handles, log⟩ := Run.exists_of_exec step anyAction .start drainingRun
    (fun s => s.handles = [.returned .served, .returned (.error "ERR server is shutting down")] ∧
      s.log = drainingLog ++ [.shutdown 0 .closed]) (by decide +kernel)
  have slow : ¬FiresFirst 0 drainingLog := by
    rintro ⟨before, after, split, -⟩
    have fired : .shutdown 0 .fired ∈ drainingLog := by
      rw [split]
      exact List.mem_append_right _ List.mem_cons_self
    revert fired
    decide
  exact ⟨s, run, handles, log, slow, ((shutdown_barrier run).2 _ 0 [] log slow).1⟩

end OlricStack.RESP
