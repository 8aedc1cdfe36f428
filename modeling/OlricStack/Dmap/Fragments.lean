import OlricStack.Lib.Run
import OlricStack.Lib.Sync
import OlricStack.Node.Engine

/-!
# The life of a fragment

A fragment is created by the first caller of `loadOrCreateFragment`, and the janitor wipes it out
when it finds it empty.  A caller loads the fragment first and locks it later, and it does not look
again whether the fragment is still there.

As long as no fragment is wiped out that a writer has loaded and not yet locked, the fragments
together are one map: a `Get` answers what the writes up to some moment of its call made of it, and
no write is lost (`fragments_are_one_map`).  In general one is (`janitor_loses_write`), and after a
`Destroy` the janitor may wipe out a fragment that is not empty (`janitor_loses_fragment`).
-/

namespace OlricStack.Dmap.Fragments

open Node Transition Sync

/-! ## The machine -/

/-- What a writer does to the storage of its fragment. -/
inductive Op
  | put (hkey : ℕ) (entry : MemEntry)
  | delete (hkey : ℕ)
deriving DecidableEq

/-- What a write does to the contents of a fragment. -/
def Op.apply (m : Engine) : Op → Engine
  | .put hkey entry => m.put hkey entry
  | .delete hkey => m.delete hkey

/-- The contents that writes make one after the other. -/
def replay (log : List Op) : Engine := log.foldl Op.apply .empty

theorem replay_snoc (log : List Op) (op : Op) : replay (log ++ [op]) = op.apply (replay log) := by
  rw [replay, List.foldl_append]
  rfl

/-- `putOnCluster` and the other writers, `getOnFragment`, the janitor's look at a fragment, and
`destroyFragmentOnPartition`. -/
inductive Call
  | write (op : Op)
  | get (hkey : ℕ)
  | janitor
  | destroy
deriving DecidableEq

/-- Where a caller or the janitor is; `f` is the fragment it has loaded. -/
inductive Pc
  | calling
  | loaded (f : ℕ)
  | locked (f : ℕ)
  /-- the janitor has found nothing -/
  | empty (f : ℕ)
  /-- in `wipeOutFragment`, after `Destroy` -/
  | destroyed (f : ℕ)
  /-- after `Map().Delete`, before `Unlock` -/
  | deleted (f : ℕ)
  | ended (answer : Option MemEntry)
deriving DecidableEq

/-- A call; `since` and `till` are the lengths of the log when it began and when it had its
answer. -/
structure Thread where
  call : Call
  pc : Pc
  since : ℕ
  till : ℕ
deriving DecidableEq

/-- One DMap in one partition of one node.  `log` has the writes in their order, and `wiped` the
length of the log when a fragment was taken out of the map. -/
structure State where
  current : Option ℕ
  engines : ℕ → Engine
  mutex : ℕ → Bool
  next : ℕ
  threads : List Thread
  log : List Op
  wiped : ℕ → Option ℕ

namespace State

/-- No fragment, and nobody there. -/
def start : State := ⟨none, fun _ => .empty, fun _ => false, 0, [], [], fun _ => none⟩

/-- The thread `t`, which is the `i`-th, is at `pc` now. -/
def moveTo (s : State) (i : ℕ) (t : Thread) (pc : Pc) : State :=
  { s with threads := s.threads.set i { t with pc := pc, till := s.log.length } }

/-- Take or release the lock of a fragment. -/
def setMutex (s : State) (f : ℕ) (b : Bool) : State :=
  { s with mutex := Function.update s.mutex f b }

/-- New contents of a fragment. -/
def setEngine (s : State) (f : ℕ) (m : Engine) : State :=
  { s with engines := Function.update s.engines f m }

/-- The first writer makes the fragment. -/
def create (s : State) : State := { s with current := some s.next, next := s.next + 1 }

/-- The map of the partition loses the name. -/
def forget (s : State) (f : ℕ) : State :=
  { s with
    current := none
    wiped := Function.update s.wiped f (some s.log.length) }

/-- The write counts for all who look later. -/
def record (s : State) (op : Op) : State := { s with log := s.log ++ [op] }

/-- What a new call finds. -/
def contents (s : State) : Engine :=
  match s.current with
  | some f => s.engines f
  | none => .empty

end State

/-- What the callers and the janitor do. -/
inductive Action
  | call (c : Call)
  | load (i : ℕ)
  | lock (i : ℕ)
  | store (i : ℕ)
  | read (i : ℕ)
  | check (i : ℕ)
  | wipe (i : ℕ)
  | delete (i : ℕ)
  | unlock (i : ℕ)
deriving DecidableEq

/-- The moves of a thread. -/
def advance (s : State) (i : ℕ) (t : Thread) : Action → Option State
  | .load _ =>
    if t.pc ≠ .calling then none
    else
      match t.call, s.current with
      | _, some f => some (s.moveTo i t (.loaded f))
      | .write _, none => some (s.create.moveTo i t (.loaded s.next))
      | _, none => some (s.moveTo i t (.ended none))
  | .lock _ =>
    match t.call, t.pc with
    | .write _, .loaded f | .janitor, .loaded f =>
      if s.mutex f then none else some ((s.setMutex f true).moveTo i t (.locked f))
    | _, _ => none
  | .store _ =>
    match t.call, t.pc with
    | .write op, .locked f =>
      some ((((s.setEngine f (op.apply (s.engines f))).setMutex f false).record op).moveTo i t
        (.ended none))
    | _, _ => none
  | .read _ =>
    match t.call, t.pc with
    | .get hkey, .loaded f =>
      if s.mutex f then none else some (s.moveTo i t (.ended ((s.engines f).get hkey)))
    | _, _ => none
  | .check _ =>
    match t.call, t.pc with
    | .janitor, .locked f =>
      if (s.engines f).toList = [] then some (s.moveTo i t (.empty f))
      else some ((s.setMutex f false).moveTo i t (.ended none))
    | _, _ => none
  | .wipe _ =>
    match t.call, t.pc with
    | .janitor, .empty f | .destroy, .loaded f =>
      some ((s.setEngine f .empty).moveTo i t (.destroyed f))
    | _, _ => none
  | .delete _ =>
    match t.call, t.pc with
    | .janitor, .destroyed f => some ((s.forget f).moveTo i t (.deleted f))
    | .destroy, .destroyed f => some ((s.forget f).moveTo i t (.ended none))
    | _, _ => none
  | .unlock _ =>
    match t.pc with
    | .deleted f => some ((s.setMutex f false).moveTo i t (.ended none))
    | _ => none
  | .call _ => none

/-- Who takes the action. -/
def Action.thread : Action → Option ℕ
  | .call _ => none
  | .load i | .lock i | .store i | .read i | .check i | .wipe i | .delete i | .unlock i => some i

/-- One step of a caller or of the janitor. -/
def step (s : State) (a : Action) : Option State :=
  match a, a.thread with
  | .call c, _ => some { s with threads := s.threads ++ [⟨c, .calling, s.log.length, 0⟩] }
  | a, some i => (s.threads[i]?).bind fun t => advance s i t a
  | _, none => none

/-! ## What a step does -/

/-- The transitions of `step`, each with what it needs. -/
inductive Steps (s : State) : Action → State → Prop
  | call {c : Call} :
      Steps s (.call c) { s with threads := s.threads ++ [⟨c, .calling, s.log.length, 0⟩] }
  | load {i : ℕ} {t : Thread} {f : ℕ} (at_i : s.threads[i]? = some t) (pc : t.pc = .calling)
      (found : s.current = some f) : Steps s (.load i) (s.moveTo i t (.loaded f))
  | create {i : ℕ} {t : Thread} {op : Op} (at_i : s.threads[i]? = some t) (pc : t.pc = .calling)
      (call : t.call = .write op) (missing : s.current = none) :
      Steps s (.load i) (s.create.moveTo i t (.loaded s.next))
  | missing {i : ℕ} {t : Thread} (at_i : s.threads[i]? = some t) (pc : t.pc = .calling)
      (missing : s.current = none) : Steps s (.load i) (s.moveTo i t (.ended none))
  | lock {i : ℕ} {t : Thread} {f : ℕ} (at_i : s.threads[i]? = some t) (pc : t.pc = .loaded f)
      (call : ∀ hkey, t.call ≠ .get hkey) (free : s.mutex f = false) :
      Steps s (.lock i) ((s.setMutex f true).moveTo i t (.locked f))
  | store {i : ℕ} {t : Thread} {f : ℕ} {op : Op} (at_i : s.threads[i]? = some t)
      (call : t.call = .write op) (pc : t.pc = .locked f) :
      Steps s (.store i) ((((s.setEngine f (op.apply (s.engines f))).setMutex f false).record
        op).moveTo i t (.ended none))
  | read {i : ℕ} {t : Thread} {f hkey : ℕ} (at_i : s.threads[i]? = some t)
      (call : t.call = .get hkey) (pc : t.pc = .loaded f) :
      Steps s (.read i) (s.moveTo i t (.ended ((s.engines f).get hkey)))
  | empty {i : ℕ} {t : Thread} {f : ℕ} (at_i : s.threads[i]? = some t) (call : t.call = .janitor)
      (pc : t.pc = .locked f) (none : s.engines f = .empty) :
      Steps s (.check i) (s.moveTo i t (.empty f))
  | full {i : ℕ} {t : Thread} {f : ℕ} (at_i : s.threads[i]? = some t) (call : t.call = .janitor)
      (pc : t.pc = .locked f) : Steps s (.check i) ((s.setMutex f false).moveTo i t (.ended none))
  | wipe {i : ℕ} {t : Thread} {f : ℕ} (at_i : s.threads[i]? = some t) (call : t.call = .janitor)
      (pc : t.pc = .empty f) :
      Steps s (.wipe i) ((s.setEngine f .empty).moveTo i t (.destroyed f))
  | wipeAll {i : ℕ} {t : Thread} {f : ℕ} (at_i : s.threads[i]? = some t)
      (call : t.call = .destroy) (pc : t.pc = .loaded f) :
      Steps s (.wipe i) ((s.setEngine f .empty).moveTo i t (.destroyed f))
  | delete {i : ℕ} {t : Thread} {f : ℕ} (at_i : s.threads[i]? = some t) (call : t.call = .janitor)
      (pc : t.pc = .destroyed f) : Steps s (.delete i) ((s.forget f).moveTo i t (.deleted f))
  | deleteAll {i : ℕ} {t : Thread} {f : ℕ} (at_i : s.threads[i]? = some t)
      (call : t.call = .destroy) (pc : t.pc = .destroyed f) :
      Steps s (.delete i) ((s.forget f).moveTo i t (.ended none))
  | unlock {i : ℕ} {t : Thread} {f : ℕ} (at_i : s.threads[i]? = some t) (pc : t.pc = .deleted f) :
      Steps s (.unlock i) ((s.setMutex f false).moveTo i t (.ended none))

theorem eq_empty_of_toList {m : Engine} (none : m.toList = []) : m = .empty := by
  cases m
  cases none
  rfl

theorem steps_of_step {s s' : State} {a : Action} (h : step s a = some s') : Steps s a s' := by
  cases a with
  | call c =>
    cases h
    exact .call
  | load i =>
    obtain ⟨t, at_i, h⟩ := Option.bind_eq_some_iff.1 h
    simp only [advance] at h
    split_ifs at h with pc
    split at h <;> cases h
    · exact .load at_i (not_not.1 pc) ‹_›
    · exact .create at_i (not_not.1 pc) ‹_› ‹_›
    · exact .missing at_i (not_not.1 pc) ‹_›
  | lock i =>
    obtain ⟨t, at_i, h⟩ := Option.bind_eq_some_iff.1 h
    simp only [advance] at h
    split at h <;> try cases h
    all_goals
      rename_i call pc
      split_ifs at h with held
      cases h
      exact .lock at_i pc (by simp [call]) (by simpa using held)
  | store i =>
    obtain ⟨t, at_i, h⟩ := Option.bind_eq_some_iff.1 h
    simp only [advance] at h
    split at h <;> cases h
    exact .store at_i ‹_› ‹_›
  | read i =>
    obtain ⟨t, at_i, h⟩ := Option.bind_eq_some_iff.1 h
    simp only [advance] at h
    split at h <;> try cases h
    split_ifs at h with held
    cases h
    exact .read at_i ‹_› ‹_›
  | check i =>
    obtain ⟨t, at_i, h⟩ := Option.bind_eq_some_iff.1 h
    simp only [advance] at h
    split at h <;> try cases h
    split_ifs at h with none <;> cases h
    · exact .empty at_i ‹_› ‹_› (eq_empty_of_toList none)
    · exact .full at_i ‹_› ‹_›
  | wipe i =>
    obtain ⟨t, at_i, h⟩ := Option.bind_eq_some_iff.1 h
    simp only [advance] at h
    split at h <;> cases h
    · exact .wipe at_i ‹_› ‹_›
    · exact .wipeAll at_i ‹_› ‹_›
  | delete i =>
    obtain ⟨t, at_i, h⟩ := Option.bind_eq_some_iff.1 h
    simp only [advance] at h
    split at h <;> cases h
    · exact .delete at_i ‹_› ‹_›
    · exact .deleteAll at_i ‹_› ‹_›
  | unlock i =>
    obtain ⟨t, at_i, h⟩ := Option.bind_eq_some_iff.1 h
    simp only [advance] at h
    split at h <;> cases h
    exact .unlock at_i ‹_›

/-! ## Who has the fragment -/

namespace Pc

/-- Has the mutex of `f`. -/
def holds (f : ℕ) : Pc → Bool
  | .locked g | .empty g | .destroyed g | .deleted g => g == f
  | _ => false

/-- The call has not ended. -/
def running : Pc → Bool
  | .ended _ => false
  | _ => true

end Pc

namespace Thread

/-- The janitor at work. -/
def cleans (t : Thread) : Bool := t.call == .janitor && t.pc.running

/-- A writer that has loaded its fragment and has not locked it. -/
def between (t : Thread) : Bool :=
  match t.call, t.pc with
  | .write _, .loaded _ => true
  | _, _ => false

end Thread

/-- Nobody destroys the DMap, the service has one janitor, and the janitor takes no fragment out of
the map that a writer has loaded and not locked. -/
def quiet (s : State) : Action → Bool
  | .call .destroy => false
  | .call .janitor => s.threads.all fun t => !t.cleans
  | .delete _ => s.threads.all fun t => !t.between
  | _ => true

/-- Nobody destroys the DMap, there is one janitor, and a lock has one holder. -/
structure Exclusive (threads : List Thread) (mutex : ℕ → Bool) : Prop where
  kept : ∀ t ∈ threads, t.call ≠ .destroy
  one : threads.countP Thread.cleans ≤ 1
  held : ∀ f, (threads.countP fun t => t.pc.holds f) = if mutex f then 1 else 0

namespace Exclusive

variable {threads : List Thread} {mutex mutex' : ℕ → Bool} {i j : ℕ} {t t' : Thread}

theorem call (h : Exclusive threads mutex) {c : Call} (kept : c ≠ .destroy)
    (one : c = .janitor → threads.countP Thread.cleans = 0) (since : ℕ) :
    Exclusive (threads ++ [⟨c, .calling, since, 0⟩]) mutex where
  kept := forall_mem_snoc h.kept kept
  one := by
    rw [List.countP_append, List.countP_singleton]
    by_cases janitor : c = .janitor
    · rw [one janitor]
      split_ifs <;> omega
    · rw [if_neg (by simp [Thread.cleans, janitor])]
      exact h.one
  held f := by rw [← h.held f, countP_snoc _ _ rfl]

theorem move (h : Exclusive threads mutex) (at_i : threads[i]? = some t)
    (runs : t.pc.running = true) (pc : Pc) (till : ℕ)
    (held : ∀ f, (if mutex' f then 1 else 0) + (if t.pc.holds f then 1 else 0) =
      (if mutex f then 1 else 0) + if pc.holds f then 1 else 0) :
    Exclusive (threads.set i { t with pc := pc, till := till }) mutex' where
  kept := forall_mem_set h.kept (h.kept t (List.mem_of_getElem? at_i))
  one := by
    have moves := countP_set_add Thread.cleans at_i { t with pc := pc, till := till }
    have less : Thread.cleans { t with pc := pc, till := till } = true → t.cleans = true := by
      intro cleans
      rw [Thread.cleans, Bool.and_eq_true] at cleans ⊢
      exact ⟨cleans.1, runs⟩
    have one := h.one
    split_ifs at moves with before after after
    · omega
    · omega
    · exact absurd (less after) before
    · omega
  held f := by
    have moves := countP_set_add (fun t : Thread => t.pc.holds f) at_i
      { t with pc := pc, till := till }
    have before := h.held f
    have after := held f
    dsimp only at moves
    omega

/-- A thread moves that neither takes nor gives back a mutex. -/
theorem stay (h : Exclusive threads mutex) (at_i : threads[i]? = some t) {old : Pc}
    (at_old : t.pc = old) (runs : old.running = true) (pc : Pc) (till : ℕ)
    (same : ∀ f, pc.holds f = old.holds f) :
    Exclusive (threads.set i { t with pc := pc, till := till }) mutex := by
  subst at_old
  exact h.move at_i runs pc till fun f => by rw [same f]

theorem lock (h : Exclusive threads mutex) {f : ℕ} (at_i : threads[i]? = some t)
    (at_f : t.pc = .loaded f) (free : mutex f = false) (till : ℕ) :
    Exclusive (threads.set i { t with pc := .locked f, till := till })
      (Function.update mutex f true) := by
  refine h.move at_i (by rw [at_f]; rfl) _ till fun g => ?_
  rw [at_f]
  by_cases same : g = f
  · simp [same, free, Pc.holds]
  · simp [same, Ne.symm same, Pc.holds]

theorem unlock (h : Exclusive threads mutex) {f : ℕ} (at_i : threads[i]? = some t) {old : Pc}
    (at_old : t.pc = old) (runs : old.running = true) (holds : ∀ g, old.holds g = (f == g))
    (answer : Option MemEntry) (till : ℕ) :
    Exclusive (threads.set i { t with pc := .ended answer, till := till })
      (Function.update mutex f false) := by
  subst at_old
  refine h.move at_i runs _ till fun g => ?_
  have taken : g = f → mutex f = true := by
    rintro rfl
    have held := h.held g
    have : 0 < threads.countP fun t => t.pc.holds g :=
      List.countP_pos_iff.2 ⟨t, List.mem_of_getElem? at_i, by simp [holds]⟩
    by_contra free
    rw [if_neg free] at held
    omega
  rw [holds g]
  by_cases same : g = f
  · simp [same, taken same, Pc.holds]
  · simp [same, Ne.symm same, Pc.holds]

/-- Only one thread has the mutex of a fragment. -/
theorem eq_of_holds (h : Exclusive threads mutex) {f : ℕ} (at_i : threads[i]? = some t)
    (at_j : threads[j]? = some t') (holds : t.pc.holds f = true) (holds' : t'.pc.holds f = true) :
    i = j := by
  refine eq_of_countP_le_one (fun t : Thread => t.pc.holds f) ?_ at_i at_j holds holds'
  rw [h.held f]
  split_ifs <;> omega

theorem eq_of_cleans (h : Exclusive threads mutex) (at_i : threads[i]? = some t)
    (at_j : threads[j]? = some t') (cleans : t.cleans = true) (cleans' : t'.cleans = true) :
    i = j :=
  eq_of_countP_le_one Thread.cleans h.one at_i at_j cleans cleans'

end Exclusive

/-! ## What the threads rely on -/

/-- The answer is what the writes up to a moment of the call made of the key. -/
def Answered (log : List Op) (t : Thread) (hkey : ℕ) (answer : Option MemEntry) : Prop :=
  ∃ n, t.since ≤ n ∧ n ≤ t.till ∧ t.till ≤ log.length ∧ answer = (replay (log.take n)).get hkey

/-- What a thread knows is right where it stands. -/
def Fits (s : State) (t : Thread) : Prop :=
  match t.pc with
  | .calling => t.since ≤ s.log.length
  | .loaded f =>
    t.since ≤ s.log.length ∧
      (s.current = some f ∨ (∃ hkey, t.call = .get hkey) ∧ ∃ n, s.wiped f = some n ∧ t.since ≤ n)
  | .locked f => s.current = some f
  | .empty f | .destroyed f => s.current = some f ∧ s.engines f = .empty
  | .deleted _ => t.call = .janitor
  | .ended answer => ∀ hkey, t.call = .get hkey → Answered s.log t hkey answer

/-- `f` was taken out of the map after `n` writes, and there was nothing then. -/
structure Wiped (s : State) (f n : ℕ) : Prop where
  moment : n ≤ s.log.length
  none : replay (s.log.take n) = .empty
  engine : s.engines f = .empty
  gone : s.current ≠ some f
  old : f < s.next

/-- The contents of the fragments in the map are those of all writes. -/
structure Kept (s : State) : Prop where
  fits : ∀ t ∈ s.threads, Fits s t
  wiped : ∀ f n, s.wiped f = some n → Wiped s f n
  current : ∀ f, s.current = some f → f < s.next
  fresh : ∀ f, s.next ≤ f → s.engines f = .empty
  contents : s.contents = replay s.log

theorem Answered.snoc {log : List Op} {t : Thread} {hkey : ℕ} {answer : Option MemEntry}
    (h : Answered log t hkey answer) (op : Op) : Answered (log ++ [op]) t hkey answer := by
  obtain ⟨n, since, till, le, rfl⟩ := h
  refine ⟨n, since, till, ?_, ?_⟩
  · rw [List.length_append]
    omega
  · rw [List.take_append_of_le_length (till.trans le)]

/-- What holds now is an answer. -/
theorem Answered.now {log : List Op} {t : Thread} (since : t.since ≤ log.length)
    (till : t.till = log.length) {hkey : ℕ} {answer : Option MemEntry}
    (now : answer = (replay log).get hkey) : Answered log t hkey answer :=
  ⟨log.length, since, till.ge, till.le, by rw [List.take_length, now]⟩

theorem Wiped.snoc {s : State} {f n : ℕ} (h : Wiped s f n) (op : Op) :
    n ≤ (s.log ++ [op]).length ∧ replay ((s.log ++ [op]).take n) = .empty := by
  refine ⟨?_, ?_⟩
  · rw [List.length_append]
    exact Nat.le_add_right_of_le h.moment
  · rw [List.take_append_of_le_length h.moment, h.none]

theorem Wiped.beside {s : State} {f n : ℕ} (h : Wiped s f n) (threads : List Thread)
    (mutex : ℕ → Bool) : Wiped { s with threads := threads, mutex := mutex } f n :=
  ⟨h.moment, h.none, h.engine, h.gone, h.old⟩

theorem State.contents_of_current {s : State} {f : ℕ} (found : s.current = some f) :
    s.contents = s.engines f := by
  rw [State.contents, found]

theorem State.contents_of_none {s : State} (missing : s.current = none) :
    s.contents = .empty := by
  rw [State.contents, missing]

theorem State.setEngine_self {s : State} {f : ℕ} {m : Engine} (same : s.engines f = m) :
    s.setEngine f m = s := by
  rw [State.setEngine, ← same, Function.update_eq_self]

namespace Kept

variable {s : State} {i : ℕ} {t : Thread} {f : ℕ}

theorem call (h : Kept s) (c : Call) :
    Kept { s with threads := s.threads ++ [⟨c, .calling, s.log.length, 0⟩] } where
  fits := forall_mem_snoc h.fits (Nat.le_refl s.log.length)
  wiped f n at_f := (h.wiped f n at_f).beside _ _
  current := h.current
  fresh := h.fresh
  contents := h.contents

/-- A thread moves, and the fragments are as they were. -/
theorem move (h : Kept s) (pc : Pc) (mutex : ℕ → Bool)
    (fits : Fits s { t with pc := pc, till := s.log.length }) :
    Kept { s.moveTo i t pc with mutex := mutex } where
  fits := forall_mem_set h.fits fits
  wiped f n at_f := (h.wiped f n at_f).beside _ _
  current := h.current
  fresh := h.fresh
  contents := h.contents

/-- The first writer makes the fragment. -/
theorem create (h : Kept s) (missing : s.current = none) (since : t.since ≤ s.log.length) :
    Kept (s.create.moveTo i t (.loaded s.next)) where
  fits := by
    refine forall_mem_set (fun t' mem => ?_) ⟨since, .inl rfl⟩
    have fits := h.fits t' mem
    unfold Fits at fits ⊢
    -- nobody relies on a fragment that is in the map
    split at fits
    · exact fits
    · exact ⟨fits.1, .inr (fits.2.resolve_left (by simp [missing]))⟩
    · simp [missing] at fits
    · simp [missing] at fits
    · simp [missing] at fits
    · exact fits
    · exact fits
  wiped f n at_f := by
    have wiped := h.wiped f n at_f
    refine ⟨wiped.moment, wiped.none, wiped.engine, ?_, Nat.lt_succ_of_lt wiped.old⟩
    intro same
    obtain rfl : s.next = f := Option.some.inj same
    exact Nat.lt_irrefl _ wiped.old
  current f found := by
    obtain rfl : s.next = f := Option.some.inj found
    exact Nat.lt_succ_self _
  fresh f le := h.fresh f (Nat.le_of_succ_le le)
  contents := by
    have none : s.contents = .empty := State.contents_of_none missing
    exact (h.fresh s.next le_rfl).trans (none.symm.trans h.contents)

/-- A write to the fragment in the map, while nobody else has its mutex. -/
theorem store (h : Kept s) (found : s.current = some f) (op : Op) (write : t.call = .write op)
    (alone : ∀ (j : ℕ) t', j ≠ i → s.threads[j]? = some t' → t'.pc.holds f = false) :
    Kept ((((s.setEngine f (op.apply (s.engines f))).setMutex f false).record op).moveTo i t
      (.ended none)) where
  fits := by
    intro t' mem
    obtain ⟨j, at_j⟩ := List.mem_iff_getElem?.1 mem
    rcases getElem?_set_cases at_j with ⟨-, rfl⟩ | ⟨ne, at_j⟩
    · intro hkey get
      rw [write] at get
      cases get
    · have fits := h.fits t' (List.mem_of_getElem? at_j)
      have free := alone j t' ne at_j
      have longer : s.log.length ≤ (s.log ++ [op]).length := by simp
      unfold Fits at fits ⊢
      split at fits
      · exact fits.trans longer
      · exact ⟨fits.1.trans longer, fits.2⟩
      · exact fits
      · next g pc =>
        refine ⟨fits.1, ?_⟩
        obtain rfl : f = g := Option.some.inj (found.symm.trans fits.1)
        simp [pc, Pc.holds] at free
      · next g pc =>
        refine ⟨fits.1, ?_⟩
        obtain rfl : f = g := Option.some.inj (found.symm.trans fits.1)
        simp [pc, Pc.holds] at free
      · exact fits
      · exact fun hkey get => (fits hkey get).snoc op
  wiped g n at_g := by
    have wiped := h.wiped g n at_g
    have other : g ≠ f := by
      rintro rfl
      exact wiped.gone found
    refine ⟨(wiped.snoc op).1, (wiped.snoc op).2, ?_, wiped.gone, wiped.old⟩
    exact (Function.update_of_ne other ..).trans wiped.engine
  current := h.current
  fresh g le := by
    have other : g ≠ f := by
      rintro rfl
      exact absurd (h.current g found) (Nat.not_lt.2 le)
    exact (Function.update_of_ne other ..).trans (h.fresh g le)
  contents := by
    have now : s.engines f = replay s.log := (State.contents_of_current found).symm.trans h.contents
    refine (State.contents_of_current (f := f) ?_).trans ?_
    · exact found
    change Function.update s.engines f (op.apply (s.engines f)) f = replay (s.log ++ [op])
    rw [Function.update_self, replay_snoc, now]

/-- The janitor takes an empty fragment out of the map that no other janitor and no writer has. -/
theorem delete (h : Kept s) (found : s.current = some f) (none : s.engines f = .empty)
    (janitor : t.call = .janitor)
    (alone : ∀ (j : ℕ) t', j ≠ i → s.threads[j]? = some t' →
      t'.pc.holds f = false ∧ (t'.pc = .loaded f → ∃ hkey, t'.call = .get hkey)) :
    Kept ((s.forget f).moveTo i t (.deleted f)) where
  fits := by
    intro t' mem
    obtain ⟨j, at_j⟩ := List.mem_iff_getElem?.1 mem
    rcases getElem?_set_cases at_j with ⟨-, rfl⟩ | ⟨ne, at_j⟩
    · exact janitor
    · have fits := h.fits t' (List.mem_of_getElem? at_j)
      obtain ⟨free, gets⟩ := alone j t' ne at_j
      unfold Fits at fits ⊢
      split at fits
      · exact fits
      · next g pc =>
        refine ⟨fits.1, .inr ?_⟩
        rcases fits.2 with at_g | ⟨get, n, wiped, since⟩
        · obtain rfl : f = g := Option.some.inj (found.symm.trans at_g)
          exact ⟨gets pc, s.log.length, Function.update_self .., fits.1⟩
        · have other : g ≠ f := by
            rintro rfl
            exact (h.wiped g n wiped).gone found
          exact ⟨get, n, (Function.update_of_ne other ..).trans wiped, since⟩
      · next g pc =>
        obtain rfl : f = g := Option.some.inj (found.symm.trans fits)
        simp [pc, Pc.holds] at free
      · next g pc =>
        obtain rfl : f = g := Option.some.inj (found.symm.trans fits.1)
        simp [pc, Pc.holds] at free
      · next g pc =>
        obtain rfl : f = g := Option.some.inj (found.symm.trans fits.1)
        simp [pc, Pc.holds] at free
      · exact fits
      · exact fits
  wiped g n at_g := by
    change Function.update s.wiped f (some s.log.length) g = some n at at_g
    by_cases same : g = f
    · subst same
      rw [Function.update_self] at at_g
      cases at_g
      have now : replay s.log = .empty :=
        h.contents.symm.trans ((State.contents_of_current found).trans none)
      refine ⟨le_rfl, ?_, none, (Option.some_ne_none g).symm, h.current g found⟩
      exact (congrArg replay List.take_length).trans now
    · rw [Function.update_of_ne same] at at_g
      have wiped := h.wiped g n at_g
      exact ⟨wiped.moment, wiped.none, wiped.engine, (Option.some_ne_none g).symm, wiped.old⟩
  current g at_g := by cases at_g
  fresh := h.fresh
  contents := none.symm.trans ((State.contents_of_current found).symm.trans h.contents)

end Kept

/-- What holds in every run. -/
structure Sound (s : State) : Prop where
  exclusive : Exclusive s.threads s.mutex
  kept : Kept s

theorem sound_start : Sound .start where
  exclusive := ⟨by simp [State.start], Nat.zero_le 1, fun _ => rfl⟩
  kept := {
    fits := by simp [State.start]
    wiped := by simp [State.start]
    current := by simp [State.start]
    fresh := fun _ _ => rfl
    contents := rfl }

namespace Sound

variable {s s' : State} {a : Action}

theorem fits (h : Sound s) {i : ℕ} {t : Thread} {pc : Pc} (at_i : s.threads[i]? = some t)
    (at_pc : t.pc = pc) : Fits s { t with pc := pc } := by
  subst at_pc
  exact h.kept.fits t (List.mem_of_getElem? at_i)

/-- What a `Get` reads of the fragment it has loaded. -/
theorem read (h : Sound s) {i : ℕ} {t : Thread} {f hkey : ℕ} (at_i : s.threads[i]? = some t)
    (pc : t.pc = .loaded f) :
    Answered s.log { t with till := s.log.length } hkey ((s.engines f).get hkey) := by
  obtain ⟨since, found | ⟨-, n, wiped, early⟩⟩ := h.fits at_i pc
  · refine .now ?_ rfl ?_
    · exact since
    rw [← State.contents_of_current found, h.kept.contents]
  · have empty := h.kept.wiped f n wiped
    exact ⟨n, early, empty.moment, le_rfl, by rw [empty.engine, empty.none]⟩

/-- Those the janitor must not meet when it takes the fragment out of the map. -/
theorem alone (h : Sound s) {i : ℕ} {t : Thread} {f : ℕ} (at_i : s.threads[i]? = some t)
    (janitor : t.call = .janitor) (pc : t.pc = .destroyed f)
    (writers : ∀ t ∈ s.threads, t.between = false) (j : ℕ) (t' : Thread) (ne : j ≠ i)
    (at_j : s.threads[j]? = some t') :
    t'.pc.holds f = false ∧ (t'.pc = .loaded f → ∃ hkey, t'.call = .get hkey) := by
  refine ⟨?_, fun loaded => ?_⟩
  · by_contra holds
    refine ne (h.exclusive.eq_of_holds (f := f) at_j at_i (by simpa using holds) ?_)
    simp [pc, Pc.holds]
  · have mem := List.mem_of_getElem? at_j
    cases call : t'.call with
    | write op =>
      have between := writers t' mem
      simp [Thread.between, call, loaded] at between
    | get hkey => exact ⟨hkey, rfl⟩
    | janitor =>
      refine absurd (h.exclusive.eq_of_cleans at_j at_i ?_ ?_) ne
      · simp [Thread.cleans, call, loaded, Pc.running]
      · simp [Thread.cleans, janitor, pc, Pc.running]
    | destroy => exact absurd call (h.exclusive.kept t' mem)

theorem step (h : Sound s) (allowed : quiet s a = true) (steps : Steps s a s') : Sound s' := by
  cases steps with
  | @call c =>
    refine ⟨h.exclusive.call ?_ ?_ _, h.kept.call c⟩
    · rintro rfl
      cases allowed
    · rintro rfl
      rw [List.countP_eq_zero]
      intro t mem
      simpa using List.all_eq_true.1 allowed t mem
  | @load i t f at_i pc found =>
    refine ⟨h.exclusive.stay at_i pc rfl _ _ fun _ => rfl, ?_⟩
    exact h.kept.move _ _ ⟨h.fits at_i pc, .inl found⟩
  | @create i t op at_i pc call missing =>
    refine ⟨h.exclusive.stay at_i pc rfl _ _ fun _ => rfl, ?_⟩
    exact h.kept.create missing (h.fits at_i pc)
  | @missing i t at_i pc missing =>
    refine ⟨h.exclusive.stay at_i pc rfl _ _ fun _ => rfl, ?_⟩
    refine h.kept.move _ _ fun hkey _ => .now ?_ rfl ?_
    · exact h.fits at_i pc
    rw [← h.kept.contents, State.contents_of_none missing]
    rfl
  | @lock i t f at_i pc call free =>
    obtain ⟨-, found | ⟨⟨hkey, get⟩, -⟩⟩ := h.fits at_i pc
    · exact ⟨h.exclusive.lock at_i pc free _, h.kept.move _ _ found⟩
    · exact absurd get (call hkey)
  | @store i t f op at_i call pc =>
    refine ⟨h.exclusive.unlock at_i pc rfl (fun _ => rfl) _ _, ?_⟩
    refine h.kept.store (h.fits at_i pc) op call fun j t' ne at_j => ?_
    by_contra other
    refine ne (h.exclusive.eq_of_holds (f := f) at_j at_i (by simpa using other) ?_)
    simp [pc, Pc.holds]
  | @read i t f hkey at_i call pc =>
    refine ⟨h.exclusive.stay at_i pc rfl _ _ fun _ => rfl, ?_⟩
    refine h.kept.move _ _ fun k get => ?_
    obtain rfl : hkey = k := Call.get.inj (call.symm.trans get)
    exact h.read at_i pc
  | @empty i t f at_i call pc none =>
    refine ⟨h.exclusive.stay at_i pc rfl _ _ fun _ => rfl, ?_⟩
    exact h.kept.move _ _ ⟨h.fits at_i pc, none⟩
  | @full i t f at_i call pc =>
    refine ⟨h.exclusive.unlock at_i pc rfl (fun _ => rfl) _ _, ?_⟩
    refine h.kept.move _ _ fun hkey get => ?_
    rw [call] at get
    cases get
  | @wipe i t f at_i call pc =>
    have fits := h.fits at_i pc
    rw [State.setEngine_self fits.2]
    refine ⟨h.exclusive.stay at_i pc rfl _ _ fun _ => rfl, ?_⟩
    exact h.kept.move _ _ fits
  | @wipeAll i t f at_i call pc =>
    exact absurd call (h.exclusive.kept t (List.mem_of_getElem? at_i))
  | @delete i t f at_i call pc =>
    have fits := h.fits at_i pc
    refine ⟨h.exclusive.stay at_i pc rfl _ _ fun _ => rfl, ?_⟩
    refine h.kept.delete fits.1 fits.2 call (h.alone at_i call pc fun t mem => ?_)
    simpa using List.all_eq_true.1 allowed t mem
  | @deleteAll i t f at_i call pc =>
    exact absurd call (h.exclusive.kept t (List.mem_of_getElem? at_i))
  | @unlock i t f at_i pc =>
    refine ⟨h.exclusive.unlock at_i pc rfl (fun _ => rfl) _ _, ?_⟩
    have janitor : t.call = .janitor := h.fits at_i pc
    refine h.kept.move _ _ fun hkey get => ?_
    rw [janitor] at get
    cases get

end Sound

theorem sound_run {s : State} {as : List Action}
    (r : Run step (fun s a => quiet s a = true) .start as s) : Sound s :=
  r.invariant Sound sound_start fun _ _ _ h allowed enabled =>
    h.step allowed (steps_of_step enabled)

/-- While nobody destroys the DMap and no writer is overtaken by the janitor between the load and
the lock of its fragment, what a caller finds is what the writes made, and a `Get` has answered what
the writes up to some moment of its call made of the key. -/
theorem fragments_are_one_map {s : State} {as : List Action}
    (r : Run step (fun s a => quiet s a = true) .start as s) :
    s.contents = replay s.log ∧
      ∀ t ∈ s.threads, ∀ hkey answer, t.call = .get hkey → t.pc = .ended answer →
        ∃ n, t.since ≤ n ∧ n ≤ t.till ∧ t.till ≤ s.log.length ∧
          answer = (replay (s.log.take n)).get hkey := by
  have sound := sound_run r
  refine ⟨sound.kept.contents, fun t mem hkey answer get ended => ?_⟩
  obtain ⟨i, at_i⟩ := List.mem_iff_getElem?.1 mem
  exact sound.fits at_i ended hkey get

/-- An entry for the runs below. -/
def someEntry : MemEntry := ⟨[97], [1], 0, 5, 0⟩

/-- A fragment is made, emptied, and taken out of the map while a `Get` has it; a writer makes the
next one. -/
theorem fragments_are_one_map_wiped :
    ∃ s, Run step (fun s a => quiet s a = true) .start
        [.call (.write (.put 4 someEntry)), .load 0, .lock 0, .store 0,
          .call (.write (.delete 4)), .load 1, .lock 1, .store 1, .call (.get 4), .load 2,
          .call .janitor, .load 3, .lock 3, .check 3, .wipe 3, .delete 3, .unlock 3,
          .call (.write (.put 4 someEntry)), .load 4, .lock 4, .store 4, .read 2] s ∧
      s.log.length = 3 ∧ s.contents = replay s.log := by
  obtain ⟨s, r, length⟩ := Run.exists_of_exec step (fun s a => quiet s a = true) .start
    [.call (.write (.put 4 someEntry)), .load 0, .lock 0, .store 0,
      .call (.write (.delete 4)), .load 1, .lock 1, .store 1, .call (.get 4), .load 2,
      .call .janitor, .load 3, .lock 3, .check 3, .wipe 3, .delete 3, .unlock 3,
      .call (.write (.put 4 someEntry)), .load 4, .lock 4, .store 4, .read 2]
    (fun s => s.log.length = 3) (by decide)
  exact ⟨s, r, length, (fragments_are_one_map r).1⟩

/-! ## Writes that are lost -/

/-- The janitor wipes out a new fragment before its first writer has locked it: the write ends
without an error, and nobody finds it. -/
theorem janitor_loses_write :
    ∃ s, Run step anyAction .start [.call (.write (.put 4 someEntry)), .load 0, .call .janitor,
        .load 1, .lock 1, .check 1, .wipe 1, .delete 1, .unlock 1, .lock 0, .store 0] s ∧
      s.log = [.put 4 someEntry] ∧ s.threads.map Thread.pc = [.ended none, .ended none] ∧
      s.contents.get 4 = none :=
  Run.exists_of_exec step anyAction .start _ _ (by decide)

/-- The janitor has found a fragment empty when the DMap is destroyed and written again: it takes
out of the map what now stands under the name. -/
theorem janitor_loses_fragment :
    ∃ s, Run step anyAction .start [.call (.write (.delete 4)), .load 0, .lock 0, .store 0,
        .call .janitor, .load 1, .lock 1, .check 1, .wipe 1, .call .destroy, .load 2, .wipe 2,
        .delete 2, .call (.write (.put 4 someEntry)), .load 3, .lock 3, .store 3, .delete 1,
        .unlock 1] s ∧
      s.log.getLast? = some (.put 4 someEntry) ∧ s.contents.get 4 = none :=
  Run.exists_of_exec step anyAction .start _ _ (by decide)

end OlricStack.Dmap.Fragments
