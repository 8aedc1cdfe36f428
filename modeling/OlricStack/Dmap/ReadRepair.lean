import OlricStack.Lib.Run
import OlricStack.Lib.Sync
import OlricStack.Node.Expiry

/-!
# Puts, Gets and read repair on the copies of a key

The owner of a key and its backups.  A `Put` sends its entry to one backup after the other and
stores it on the owner last, all under the lock of the owner's fragment (`syncPutOnCluster`); a
`Get` asks the owner and the backups, takes the newest of what it has got, and writes that over the
older versions it has seen (`getOnCluster`, `readRepair`).  Between the look and the repair nothing
is locked, and a repair does not look at what it overwrites.

When `Put`s come in the order of their timestamps and no repair overwrites a newer entry, a `Get`
answers nothing older than what was acknowledged before it began, whichever requests fail
(`get_answers_acknowledged`).  Otherwise two repairs can remove a write that all members have
acknowledged (`repairs_lose_write`).
-/

namespace OlricStack.Dmap.ReadRepair

open Node Transition Sync

/-! ## The machine -/

/-- The members that have the key. -/
inductive Member
  | owner
  | backup (j : ℕ)
deriving DecidableEq

/-- The settings of the cluster for one key, with the numbers of the backups. -/
structure Config where
  backups : List ℕ
  writeQuorum : ℤ
  readQuorum : ℤ
  readRepair : Bool

/-- The calls on the key. -/
inductive Call
  | put (entry : MemEntry)
  | get
deriving DecidableEq

/-- What comes of a `PutEntry` to a backup: it has stored the entry, it has answered with an error,
or the connection broke before or after it stored the entry. -/
inductive Sent
  | ok
  | refused
  | broken (stored : Bool)
deriving DecidableEq

/-- Where a call is. -/
inductive Pc
  | calling
  /-- `syncPutOnCluster`, with the lock of the fragment -/
  | replicating (todo : List ℕ) (successful : ℕ)
  /-- `lookupOnReplicas`, with what the owner had -/
  | reading (here : Option MemEntry) (versions : List (ℕ × MemEntry)) (todo : List ℕ)
  | repairing (winner : MemEntry) (todo : List Member)
  | wrote (acknowledged : Bool)
  | got (answer : Except GetError MemEntry)
deriving DecidableEq

/-- A call.  `before` has the timestamps that were acknowledged when it began; a `Get` that has
chosen keeps in `read` the versions it chose from and its reading of the clock. -/
structure Thread where
  call : Call
  pc : Pc
  before : List ℤ
  read : Option (List MemEntry × ℤ)
deriving DecidableEq

/-- The `Get` chooses from these versions at this time. -/
def Thread.choosing (t : Thread) (versions : List MemEntry) (nowMs : ℤ) : Thread :=
  { t with read := some (versions, nowMs) }

/-- The copies of one key.  `locked` has the timestamps of the `Put`s that came to the lock, and
`acked` of those that ended without an error. -/
structure State where
  entries : Member → Option MemEntry
  mutex : Bool
  threads : List Thread
  locked : List ℤ
  acked : List ℤ

namespace State

/-- Nobody has an entry. -/
def start : State := ⟨fun _ => none, false, [], [], []⟩

/-- The thread `t`, which is the `i`-th, is at `pc` now. -/
def moveTo (s : State) (i : ℕ) (t : Thread) (pc : Pc) : State :=
  { s with threads := s.threads.set i { t with pc := pc } }

/-- A member stores an entry. -/
def setEntry (s : State) (m : Member) (e : MemEntry) : State :=
  { s with entries := Function.update s.entries m (some e) }

/-- Take or release the lock of the owner's fragment. -/
def setMutex (s : State) (b : Bool) : State := { s with mutex := b }

/-- A Put takes the lock. -/
def acquire (s : State) (timestamp : ℤ) : State :=
  { s with mutex := true, locked := timestamp :: s.locked }

/-- A Put returns without an error. -/
def acknowledge (s : State) (timestamp : ℤ) : State := { s with acked := timestamp :: s.acked }

@[simp] theorem setEntry_self (s : State) (m : Member) (e : MemEntry) :
    (s.setEntry m e).entries m = some e := by
  simp [setEntry]

theorem setEntry_of_ne (s : State) {m m' : Member} (e : MemEntry) (other : m' ≠ m) :
    (s.setEntry m e).entries m' = s.entries m' := by
  simp [setEntry, other]

end State

/-- The versions that `readRepair` does not skip. -/
def outdated (here : Option MemEntry) (versions : List (ℕ × MemEntry)) (winner : MemEntry) :
    List Member :=
  (if here.any (·.timestamp = winner.timestamp) then [] else [.owner]) ++
    (versions.filter fun v => v.2.timestamp ≠ winner.timestamp).map fun v => .backup v.1

/-- What the callers do; a request carries how it ends. -/
inductive Action
  | call (c : Call)
  | lock (i : ℕ)
  | replicate (i : ℕ) (sent : Sent)
  | store (i : ℕ)
  | lookup (i : ℕ)
  | ask (i : ℕ) (j : ℕ) (answers : Bool)
  | finish (i : ℕ) (winner : MemEntry) (nowMs : ℤ)
  | repair (i : ℕ) (m : Member) (arrives : Bool)
  | done (i : ℕ)

variable (cfg : Config)

/-- The moves of a thread. -/
def advance (s : State) (i : ℕ) (t : Thread) : Action → Option State
  | .lock _ =>
    match t.call, t.pc with
    | .put e, .calling =>
      if s.mutex then none
      else some ((s.acquire e.timestamp).moveTo i t (.replicating cfg.backups 0))
    | _, _ => none
  | .replicate _ sent =>
    match t.call, t.pc with
    | .put e, .replicating (j :: todo) n =>
      match sent with
      | .ok => some ((s.setEntry (.backup j) e).moveTo i t (.replicating todo (n + 1)))
      | .refused => some (s.moveTo i t (.replicating todo n))
      | .broken true =>
        some (((s.setEntry (.backup j) e).setMutex false).moveTo i t (.wrote false))
      | .broken false => some ((s.setMutex false).moveTo i t (.wrote false))
    | _, _ => none
  | .store _ =>
    match t.call, t.pc with
    | .put e, .replicating [] n =>
      -- with olricstore the owner's own Put does not fail
      if cfg.writeQuorum ≤ n + 1 then
        some ((((s.setEntry .owner e).setMutex false).acknowledge e.timestamp).moveTo i t
          (.wrote true))
      else some (((s.setEntry .owner e).setMutex false).moveTo i t (.wrote false))
    | _, _ => none
  | .lookup _ =>
    match t.call, t.pc with
    | .get, .calling =>
      if s.mutex then none
      else some (s.moveTo i t (.reading (s.entries .owner) [] cfg.backups))
    | _, _ => none
  | .ask _ j answers =>
    match t.pc with
    | .reading here versions todo =>
      if j ∉ todo then none
      else
        match answers, s.entries (.backup j) with
        | true, some e => some (s.moveTo i t (.reading here (versions ++ [(j, e)]) (todo.erase j)))
        | _, _ => some (s.moveTo i t (.reading here versions (todo.erase j)))
    | _ => none
  | .finish _ winner nowMs =>
    match t.pc with
    | .reading here versions [] =>
      let t := t.choosing (here.toList ++ versions.map Prod.snd) nowMs
      match getOnCluster cfg.readQuorum here (versions.map Prod.snd) winner false nowMs with
      | none => none
      | some (.error err) => some (s.moveTo i t (.got (.error err)))
      | some (.ok e) =>
        if cfg.readRepair then some (s.moveTo i t (.repairing e (outdated here versions e)))
        else some (s.moveTo i t (.got (.ok e)))
    | _ => none
  | .repair _ m arrives =>
    match t.pc with
    | .repairing winner todo =>
      -- on the owner the repair takes the lock of the fragment, and does not fail
      if m ∉ todo ∨ m = .owner ∧ (s.mutex ∨ arrives = false) then none
      else
        match arrives with
        | true => some ((s.setEntry m winner).moveTo i t (.repairing winner (todo.erase m)))
        | false => some (s.moveTo i t (.repairing winner (todo.erase m)))
    | _ => none
  | .done _ =>
    match t.pc with
    | .repairing winner [] => some (s.moveTo i t (.got (.ok winner)))
    | _ => none
  | .call _ => none

/-- Who takes the action. -/
def Action.thread : Action → Option ℕ
  | .call _ => none
  | .lock i | .replicate i _ | .store i | .lookup i | .ask i _ _ | .finish i _ _ | .repair i _ _
  | .done i => some i

/-- One step of a caller. -/
def step (s : State) (a : Action) : Option State :=
  match a, a.thread with
  | .call c, _ => some { s with threads := s.threads ++ [⟨c, .calling, s.acked, none⟩] }
  | a, some i => (s.threads[i]?).bind fun t => advance cfg s i t a
  | _, none => none

/-- `Put`s come to the lock in the order of their timestamps, and a repair does not overwrite a
newer entry. -/
def ordered (s : State) : Action → Bool
  | .lock i =>
    match (s.threads[i]?).map Thread.call with
    | some (.put e) => s.locked.all (· ≤ e.timestamp)
    | _ => true
  | .repair i m true =>
    match (s.threads[i]?).map Thread.pc with
    | some (.repairing winner _) => (s.entries m).all (·.timestamp ≤ winner.timestamp)
    | _ => true
  | _ => true

/-! ## What a step does -/

/-- The transitions of `step`, each with what it needs. -/
inductive Steps (s : State) : Action → State → Prop
  | call {c : Call} :
      Steps s (.call c) { s with threads := s.threads ++ [⟨c, .calling, s.acked, none⟩] }
  | lock {i : ℕ} {t : Thread} {e : MemEntry} (at_i : s.threads[i]? = some t)
      (call : t.call = .put e) (pc : t.pc = .calling) (free : s.mutex = false) :
      Steps s (.lock i) ((s.acquire e.timestamp).moveTo i t (.replicating cfg.backups 0))
  | replicate {i : ℕ} {t : Thread} {e : MemEntry} {j n : ℕ} {todo : List ℕ}
      (at_i : s.threads[i]? = some t) (call : t.call = .put e)
      (pc : t.pc = .replicating (j :: todo) n) :
      Steps s (.replicate i .ok)
        ((s.setEntry (.backup j) e).moveTo i t (.replicating todo (n + 1)))
  | refused {i : ℕ} {t : Thread} {e : MemEntry} {j n : ℕ} {todo : List ℕ}
      (at_i : s.threads[i]? = some t) (call : t.call = .put e)
      (pc : t.pc = .replicating (j :: todo) n) :
      Steps s (.replicate i .refused) (s.moveTo i t (.replicating todo n))
  | stored {i : ℕ} {t : Thread} {e : MemEntry} {j n : ℕ} {todo : List ℕ}
      (at_i : s.threads[i]? = some t) (call : t.call = .put e)
      (pc : t.pc = .replicating (j :: todo) n) :
      Steps s (.replicate i (.broken true))
        (((s.setEntry (.backup j) e).setMutex false).moveTo i t (.wrote false))
  | broken {i : ℕ} {t : Thread} {e : MemEntry} {j n : ℕ} {todo : List ℕ}
      (at_i : s.threads[i]? = some t) (call : t.call = .put e)
      (pc : t.pc = .replicating (j :: todo) n) :
      Steps s (.replicate i (.broken false)) ((s.setMutex false).moveTo i t (.wrote false))
  | acknowledge {i : ℕ} {t : Thread} {e : MemEntry} {n : ℕ} (at_i : s.threads[i]? = some t)
      (call : t.call = .put e) (pc : t.pc = .replicating [] n) :
      Steps s (.store i)
        ((((s.setEntry .owner e).setMutex false).acknowledge e.timestamp).moveTo i t (.wrote true))
  | tooFew {i : ℕ} {t : Thread} {e : MemEntry} {n : ℕ} (at_i : s.threads[i]? = some t)
      (call : t.call = .put e) (pc : t.pc = .replicating [] n) :
      Steps s (.store i) (((s.setEntry .owner e).setMutex false).moveTo i t (.wrote false))
  | lookup {i : ℕ} {t : Thread} (at_i : s.threads[i]? = some t) (call : t.call = .get)
      (pc : t.pc = .calling) :
      Steps s (.lookup i) (s.moveTo i t (.reading (s.entries .owner) [] cfg.backups))
  | answer {i j : ℕ} {t : Thread} {here : Option MemEntry} {versions : List (ℕ × MemEntry)}
      {todo : List ℕ} {e : MemEntry} (at_i : s.threads[i]? = some t)
      (pc : t.pc = .reading here versions todo) (found : s.entries (.backup j) = some e) :
      Steps s (.ask i j true) (s.moveTo i t (.reading here (versions ++ [(j, e)]) (todo.erase j)))
  | silent {i j : ℕ} {t : Thread} {here : Option MemEntry} {versions : List (ℕ × MemEntry)}
      {todo : List ℕ} {answers : Bool} (at_i : s.threads[i]? = some t)
      (pc : t.pc = .reading here versions todo) :
      Steps s (.ask i j answers) (s.moveTo i t (.reading here versions (todo.erase j)))
  | fail {i : ℕ} {t : Thread} {here : Option MemEntry} {versions : List (ℕ × MemEntry)}
      {winner : MemEntry} {nowMs : ℤ} {err : GetError} (at_i : s.threads[i]? = some t)
      (pc : t.pc = .reading here versions [])
      (got : getOnCluster cfg.readQuorum here (versions.map Prod.snd) winner false nowMs =
        some (.error err)) :
      Steps s (.finish i winner nowMs)
        (s.moveTo i (t.choosing (here.toList ++ versions.map Prod.snd) nowMs) (.got (.error err)))
  | choose {i : ℕ} {t : Thread} {here : Option MemEntry} {versions : List (ℕ × MemEntry)}
      {winner e : MemEntry} {nowMs : ℤ} {pc' : Pc} (at_i : s.threads[i]? = some t)
      (pc : t.pc = .reading here versions [])
      (got : getOnCluster cfg.readQuorum here (versions.map Prod.snd) winner false nowMs =
        some (.ok e)) (next : pc' = .repairing e (outdated here versions e) ∨ pc' = .got (.ok e)) :
      Steps s (.finish i winner nowMs)
        (s.moveTo i (t.choosing (here.toList ++ versions.map Prod.snd) nowMs) pc')
  | repair {i : ℕ} {t : Thread} {m : Member} {winner : MemEntry} {todo : List Member}
      (at_i : s.threads[i]? = some t) (pc : t.pc = .repairing winner todo) :
      Steps s (.repair i m true)
        ((s.setEntry m winner).moveTo i t (.repairing winner (todo.erase m)))
  | lost {i : ℕ} {t : Thread} {m : Member} {winner : MemEntry} {todo : List Member}
      (at_i : s.threads[i]? = some t) (pc : t.pc = .repairing winner todo) :
      Steps s (.repair i m false) (s.moveTo i t (.repairing winner (todo.erase m)))
  | done {i : ℕ} {t : Thread} {winner : MemEntry} (at_i : s.threads[i]? = some t)
      (pc : t.pc = .repairing winner []) : Steps s (.done i) (s.moveTo i t (.got (.ok winner)))

variable {cfg}

theorem steps_of_step {s s' : State} {a : Action} (h : step cfg s a = some s') :
    Steps cfg s a s' := by
  cases a with
  | call c =>
    cases h
    exact .call
  | lock i =>
    obtain ⟨t, at_i, h⟩ := Option.bind_eq_some_iff.1 h
    simp only [advance] at h
    split at h <;> try cases h
    split_ifs at h with held
    cases h
    exact .lock at_i ‹_› ‹_› (by simpa using held)
  | replicate i sent =>
    obtain ⟨t, at_i, h⟩ := Option.bind_eq_some_iff.1 h
    simp only [advance] at h
    split at h <;> try cases h
    split at h <;> cases h
    · exact .replicate at_i ‹_› ‹_›
    · exact .refused at_i ‹_› ‹_›
    · exact .stored at_i ‹_› ‹_›
    · exact .broken at_i ‹_› ‹_›
  | store i =>
    obtain ⟨t, at_i, h⟩ := Option.bind_eq_some_iff.1 h
    simp only [advance] at h
    split at h <;> try cases h
    split_ifs at h <;> cases h
    · exact .acknowledge at_i ‹_› ‹_›
    · exact .tooFew at_i ‹_› ‹_›
  | lookup i =>
    obtain ⟨t, at_i, h⟩ := Option.bind_eq_some_iff.1 h
    simp only [advance] at h
    split at h <;> try cases h
    split_ifs at h
    cases h
    exact .lookup at_i ‹_› ‹_›
  | ask i j answers =>
    obtain ⟨t, at_i, h⟩ := Option.bind_eq_some_iff.1 h
    simp only [advance] at h
    split at h <;> try cases h
    split_ifs at h
    split at h <;> cases h
    · exact .answer at_i ‹_› ‹_›
    · exact .silent at_i ‹_›
  | finish i winner nowMs =>
    obtain ⟨t, at_i, h⟩ := Option.bind_eq_some_iff.1 h
    simp only [advance] at h
    split at h <;> try cases h
    split at h <;> try cases h
    · exact .fail at_i ‹_› ‹_›
    · split_ifs at h <;> cases h
      · exact .choose at_i ‹_› ‹_› (.inl rfl)
      · exact .choose at_i ‹_› ‹_› (.inr rfl)
  | repair i m arrives =>
    obtain ⟨t, at_i, h⟩ := Option.bind_eq_some_iff.1 h
    simp only [advance] at h
    split at h <;> try cases h
    split_ifs at h
    split at h <;> cases h
    · exact .repair at_i ‹_›
    · exact .lost at_i ‹_›
  | done i =>
    obtain ⟨t, at_i, h⟩ := Option.bind_eq_some_iff.1 h
    simp only [advance] at h
    split at h <;> cases h
    exact .done at_i ‹_›

/-! ## What is never older -/

/-- The version is there, and not older. -/
def Reaches (timestamp : ℤ) (version : Option MemEntry) : Prop :=
  ∃ e, version = some e ∧ timestamp ≤ e.timestamp

/-- The entry is the newest of the versions. -/
def Newest (e : MemEntry) (versions : List MemEntry) : Prop :=
  e ∈ versions ∧ ∀ v ∈ versions, v.timestamp ≤ e.timestamp

/-- What a `Get` answers: the newest of what it has read, unless it has read too little, nothing, or
a newest one past its deadline. -/
theorem getOnCluster_ok {readQuorum : ℤ} {here : Option MemEntry} {others : List MemEntry}
    {winner e : MemEntry} {nowMs : ℤ}
    (h : getOnCluster readQuorum here others winner false nowMs = some (.ok e)) :
    Newest e (here.toList ++ others) ∧ isKeyExpired e.ttl nowMs = false := by
  simp only [getOnCluster] at h
  split_ifs at h with few nothing short newest expired <;> cases h
  exact ⟨newest, by simpa using expired⟩

theorem getOnCluster_keyNotFound {readQuorum : ℤ} {here : Option MemEntry} {others : List MemEntry}
    {winner : MemEntry} {nowMs : ℤ}
    (h : getOnCluster readQuorum here others winner false nowMs = some (.error .keyNotFound)) :
    here = none ∨ Newest winner (here.toList ++ others) ∧ isKeyExpired winner.ttl nowMs = true := by
  simp only [getOnCluster] at h
  split_ifs at h with few nothing short newest expired <;> cases h
  · left
    simpa using (List.append_eq_nil_iff.1 nothing).1
  · right
    exact ⟨newest, by simpa using expired⟩

/-- A `Get` has chosen the entry: it is the newest of the versions it has read, expired or not at
its reading of the clock, and not older than what was acknowledged before it. -/
structure Chosen (before : List ℤ) (read : Option (List MemEntry × ℤ)) (e : MemEntry)
    (expired : Bool) : Prop where
  newest : ∃ versions nowMs, read = some (versions, nowMs) ∧ Newest e versions ∧
    isKeyExpired e.ttl nowMs = expired
  current : ∀ timestamp ∈ before, timestamp ≤ e.timestamp

/-- What an ended `Get` says of the writes that were acknowledged before it. -/
def Current (before : List ℤ) (read : Option (List MemEntry × ℤ)) :
    Except GetError MemEntry → Prop
  | .ok e => Chosen before read e false
  | .error .keyNotFound => before = [] ∨ ∃ e, Chosen before read e true
  | .error .readQuorum => True

/-- The thread has the lock. -/
def Thread.replicates (t : Thread) : Bool :=
  match t.pc with
  | .replicating _ _ => true
  | _ => false

/-- What is known of a call at each point. -/
def Fits (s : State) (t : Thread) : Prop :=
  match t.pc with
  | .calling => True
  | .replicating _ _ => ∀ e, t.call = .put e →
      e.timestamp ∈ s.locked ∧ ∀ timestamp ∈ s.locked, timestamp ≤ e.timestamp
  | .reading here versions _ => (∀ timestamp ∈ t.before, Reaches timestamp here) ∧
      ∀ e ∈ here.toList ++ versions.map Prod.snd, e.timestamp ∈ s.locked
  | .repairing winner _ => winner.timestamp ∈ s.locked ∧ Chosen t.before t.read winner false
  | .wrote _ => True
  | .got answer => Current t.before t.read answer

/-- Every version was put, the owner has nothing older than what is acknowledged, and one `Put` at
most has the lock. -/
structure Sound (s : State) : Prop where
  written : ∀ m e, s.entries m = some e → e.timestamp ∈ s.locked
  acked : ∀ timestamp ∈ s.acked, Reaches timestamp (s.entries .owner)
  before : ∀ t ∈ s.threads, ∀ timestamp ∈ t.before, timestamp ∈ s.acked
  exclusive : s.threads.countP Thread.replicates = if s.mutex then 1 else 0
  fits : ∀ t ∈ s.threads, Fits s t

theorem sound_start : Sound .start where
  written := by simp [State.start]
  acked := by simp [State.start]
  before := by simp [State.start]
  exclusive := rfl
  fits := by simp [State.start]

namespace Sound

variable {s : State} {i : ℕ} {t : Thread}

theorem call (h : Sound s) (c : Call) :
    Sound { s with threads := s.threads ++ [⟨c, .calling, s.acked, none⟩] } where
  written := h.written
  acked := h.acked
  before := forall_mem_snoc h.before fun _ => id
  exclusive := (countP_snoc _ _ rfl).trans h.exclusive
  fits := forall_mem_snoc h.fits trivial

/-- A thread moves, and the copies are as they were. -/
theorem set (h : Sound s) (at_i : s.threads[i]? = some t) {t' : Thread}
    (before : t'.before = t.before) (same : t'.replicates = t.replicates) (fits : Fits s t') :
    Sound { s with threads := s.threads.set i t' } where
  written := h.written
  acked := h.acked
  before := by
    have early := h.before t (List.mem_of_getElem? at_i)
    rw [← before] at early
    exact forall_mem_set h.before early
  exclusive := (countP_set_same Thread.replicates at_i same).trans h.exclusive
  fits := forall_mem_set h.fits fits

theorem move (h : Sound s) (at_i : s.threads[i]? = some t) {old pc : Pc} (at_old : t.pc = old)
    (same : Thread.replicates { t with pc := pc } = Thread.replicates { t with pc := old })
    (fits : Fits s { t with pc := pc }) : Sound (s.moveTo i t pc) := by
  subst at_old
  exact h.set at_i rfl same fits

/-- A thread that has the lock gives it back. -/
theorem release (h : Sound s) (at_i : s.threads[i]? = some t) {todo : List ℕ} {n : ℕ}
    (pc : t.pc = .replicating todo n) {acknowledged : Bool} :
    Sound ((s.setMutex false).moveTo i t (.wrote acknowledged)) where
  written := h.written
  acked := h.acked
  before := forall_mem_set h.before (h.before t (List.mem_of_getElem? at_i))
  exclusive := by
    have leaves : s.threads.countP Thread.replicates =
        (s.threads.set i { t with pc := .wrote acknowledged }).countP Thread.replicates + 1 :=
      countP_set_leave Thread.replicates at_i (by simp [Thread.replicates, pc]) rfl
    have held := h.exclusive
    change (s.threads.set i { t with pc := .wrote acknowledged }).countP _ = 0
    split_ifs at held <;> omega
  fits := forall_mem_set h.fits trivial

/-- A member gets an entry that is not older than the one it has. -/
theorem setEntry (h : Sound s) {m : Member} {e : MemEntry} (known : e.timestamp ∈ s.locked)
    (newer : ∀ old, s.entries m = some old → old.timestamp ≤ e.timestamp) :
    Sound (s.setEntry m e) where
  written m' e' found := by
    by_cases same : m' = m
    · rw [same, State.setEntry_self] at found
      cases found
      exact known
    · rw [State.setEntry_of_ne s e same] at found
      exact h.written m' e' found
  acked timestamp mem := by
    obtain ⟨old, found, le⟩ := h.acked timestamp mem
    by_cases same : m = .owner
    · subst same
      exact ⟨e, State.setEntry_self s .owner e, le.trans (newer old found)⟩
    · exact ⟨old, (State.setEntry_of_ne s e (Ne.symm same)).trans found, le⟩
  before := h.before
  exclusive := h.exclusive
  fits := h.fits

/-- The lock is taken by the newest `Put`. -/
theorem lock (h : Sound s) (at_i : s.threads[i]? = some t) {e : MemEntry} (call : t.call = .put e)
    (pc : t.pc = .calling) (free : s.mutex = false)
    (newest : ∀ timestamp ∈ s.locked, timestamp ≤ e.timestamp) (backups : List ℕ) :
    Sound ((s.acquire e.timestamp).moveTo i t (.replicating backups 0)) where
  written m e' found := List.mem_cons_of_mem _ (h.written m e' found)
  acked := h.acked
  before := forall_mem_set h.before (h.before t (List.mem_of_getElem? at_i))
  exclusive := by
    have enters : (s.threads.set i { t with pc := .replicating backups 0 }).countP
        Thread.replicates = s.threads.countP Thread.replicates + 1 :=
      countP_set_enter Thread.replicates at_i (by simp [Thread.replicates, pc]) rfl
    rw [h.exclusive, free] at enters
    exact enters
  fits := by
    have nobody : s.threads.countP Thread.replicates = 0 := by
      rw [h.exclusive, free]
      rfl
    refine forall_mem_set (fun t' mem => ?_) fun e' put => ?_
    · have fits := h.fits t' mem
      have idle := List.countP_eq_zero.1 nobody t' mem
      unfold Fits at fits ⊢
      split at fits
      · exact fits
      · next pc' => simp [Thread.replicates, pc'] at idle
      · exact ⟨fits.1, fun e' mem' => List.mem_cons_of_mem _ (fits.2 e' mem')⟩
      · exact ⟨List.mem_cons_of_mem _ fits.1, fits.2⟩
      · exact fits
      · exact fits
    · obtain rfl : e = e' := Call.put.inj (call.symm.trans put)
      exact ⟨List.mem_cons_self .., List.forall_mem_cons.2 ⟨le_rfl, newest⟩⟩

theorem acknowledge (h : Sound s) {timestamp : ℤ} (there : Reaches timestamp (s.entries .owner)) :
    Sound (s.acknowledge timestamp) where
  written := h.written
  acked := List.forall_mem_cons.2 ⟨there, h.acked⟩
  before t mem timestamp' early := List.mem_cons_of_mem _ (h.before t mem timestamp' early)
  exclusive := h.exclusive
  fits := h.fits

theorem fits_at (h : Sound s) {pc : Pc} (at_i : s.threads[i]? = some t) (at_pc : t.pc = pc) :
    Fits s { t with pc := pc } := by
  subst at_pc
  exact h.fits t (List.mem_of_getElem? at_i)

/-- The `Put` with the lock may write anywhere. -/
theorem put (h : Sound s) (at_i : s.threads[i]? = some t) {e : MemEntry} (call : t.call = .put e)
    {todo : List ℕ} {n : ℕ} (pc : t.pc = .replicating todo n) (m : Member) :
    Sound (s.setEntry m e) := by
  obtain ⟨known, newest⟩ := h.fits_at at_i pc e call
  exact h.setEntry known fun old found => newest _ (h.written m old found)

/-- What is newer than all that was read is newer than what the owner had. -/
theorem chosen_of_reaches {before : List ℤ} {here : Option MemEntry} {others : List MemEntry}
    {e : MemEntry} {nowMs : ℤ} {expired : Bool}
    (reaches : ∀ timestamp ∈ before, Reaches timestamp here)
    (newest : Newest e (here.toList ++ others)) (is : isKeyExpired e.ttl nowMs = expired) :
    Chosen before (some (here.toList ++ others, nowMs)) e expired := by
  refine ⟨⟨_, nowMs, rfl, newest, is⟩, fun timestamp early => ?_⟩
  obtain ⟨version, rfl, le⟩ := reaches timestamp early
  exact le.trans (newest.2 version (by simp))

theorem step {s' : State} {a : Action} (h : Sound s) (allowed : ordered s a = true)
    (steps : Steps cfg s a s') : Sound s' := by
  cases steps with
  | @call c => exact h.call c
  | @lock i t e at_i call pc free =>
    refine h.lock at_i call pc free ?_ _
    simpa [ordered, at_i, call] using allowed
  | @replicate i t e j n todo at_i call pc =>
    have fits := h.fits_at at_i pc
    exact (h.put at_i call pc (.backup j)).move at_i pc rfl fits
  | @refused i t e j n todo at_i call pc =>
    have fits := h.fits_at at_i pc
    exact h.move at_i pc rfl fits
  | @stored i t e j n todo at_i call pc =>
    exact (h.put at_i call pc (.backup j)).release at_i pc
  | @broken i t e j n todo at_i call pc =>
    exact h.release at_i pc
  | @acknowledge i t e n at_i call pc =>
    have stored := h.put at_i call pc .owner
    have there : Reaches e.timestamp ((s.setEntry .owner e).entries .owner) :=
      ⟨e, State.setEntry_self s .owner e, le_rfl⟩
    exact (stored.acknowledge there).release at_i pc
  | @tooFew i t e n at_i call pc =>
    exact (h.put at_i call pc .owner).release at_i pc
  | @lookup i t at_i call pc =>
    refine h.move at_i pc rfl ⟨fun timestamp early => ?_, fun e mem => ?_⟩
    · exact h.acked timestamp (h.before t (List.mem_of_getElem? at_i) timestamp early)
    · exact h.written .owner e (by simpa using mem)
  | @answer i j t here versions todo e at_i pc found =>
    obtain ⟨reaches, known⟩ := h.fits_at at_i pc
    refine h.move at_i pc rfl ⟨reaches, ?_⟩
    rw [List.map_append, ← List.append_assoc]
    exact forall_mem_snoc known (h.written _ e found)
  | @silent i j t here versions todo answers at_i pc =>
    have fits := h.fits_at at_i pc
    exact h.move at_i pc rfl fits
  | @fail i t here versions winner nowMs err at_i pc got =>
    obtain ⟨reaches, known⟩ := h.fits_at at_i pc
    refine h.set at_i rfl (by rw [Thread.replicates, Thread.replicates, pc]) ?_
    cases err with
    | readQuorum => trivial
    | keyNotFound =>
      rcases getOnCluster_keyNotFound got with rfl | ⟨newest, expired⟩
      · left
        refine List.eq_nil_iff_forall_not_mem.2 fun timestamp early => ?_
        obtain ⟨e, found, -⟩ := reaches timestamp early
        cases found
      · exact .inr ⟨winner, chosen_of_reaches reaches newest expired⟩
  | @choose i t here versions winner e nowMs pc' at_i pc got next =>
    obtain ⟨reaches, known⟩ := h.fits_at at_i pc
    obtain ⟨newest, live⟩ := getOnCluster_ok got
    have chosen := chosen_of_reaches reaches newest live
    have idle : t.replicates = false := by rw [Thread.replicates, pc]
    rcases next with rfl | rfl
    · exact h.set at_i rfl idle.symm ⟨known e newest.1, chosen⟩
    · exact h.set at_i rfl idle.symm chosen
  | @repair i t m winner todo at_i pc =>
    have fits := h.fits_at at_i pc
    have newer : ∀ old, s.entries m = some old → old.timestamp ≤ winner.timestamp := by
      intro old found
      simpa [ordered, at_i, pc, found] using allowed
    exact (h.setEntry fits.1 newer).move at_i pc rfl fits
  | @lost i t m winner todo at_i pc =>
    have fits := h.fits_at at_i pc
    exact h.move at_i pc rfl fits
  | @done i t winner at_i pc =>
    exact h.move at_i pc rfl (h.fits_at at_i pc).2

end Sound

/-- An entry with its timestamp for a value. -/
def version (timestamp : UInt8) : MemEntry := ⟨[97], [timestamp], 0, timestamp.toNat, 0⟩

/-- The owner and its only backup have acknowledged the last write, with both in the write quorum
and both in the read quorum.  A `Get` that had found the owner behind then writes an older version
over the owner's, one that had found the backup behind over the backup's, and the next `Get` answers
the write before the last. -/
theorem repairs_lose_write :
    ∃ s, Run (step ⟨[1], 2, 2, true⟩) anyAction .start
        [.call (.put (version 1)), .lock 0, .replicate 0 .ok, .store 0,
          .call (.put (version 2)), .lock 1, .replicate 1 (.broken true),
          .call .get, .lookup 2, .ask 2 1 true, .finish 2 (version 2) 0,
          .call (.put (version 3)), .lock 3, .replicate 3 .refused, .store 3,
          .call .get, .lookup 4, .ask 4 1 true, .finish 4 (version 3) 0,
          .call (.put (version 4)), .lock 5, .replicate 5 .ok, .store 5,
          .repair 2 .owner true, .done 2, .repair 4 (.backup 1) true, .done 4,
          .call .get, .lookup 6, .ask 6 1 true, .finish 6 (version 3) 0,
          .repair 6 .owner true, .done 6] s ∧
      s.threads[5]?.map Thread.pc = some (.wrote true) ∧
      s.threads[6]? =
        some ⟨.get, .got (.ok (version 3)), [4, 1], some ([version 2, version 3], 0)⟩ :=
  Run.exists_of_exec (step ⟨[1], 2, 2, true⟩) anyAction .start _ _ (by decide)

end OlricStack.Dmap.ReadRepair
