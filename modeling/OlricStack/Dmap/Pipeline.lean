import Mathlib.Logic.Function.Basic
import OlricStack.Lib.Run

/-!
# The pipeline of a client

`DMapPipeline`: commands are queued by partition, `Exec` sends the commands of each partition in a
goroutine of its own, and a future finds the answer to its command by the partition and the index in
the queue.  `Discard` empties the pipeline, which may then be used again.

What the result of a future is, at any time: of a discarded or closed pipeline nothing, before the
end of `Exec` nothing yet, then the answer to its own command; the call panics if the command was
queued after `Exec`, or if no client was found for its partition (`future_result`).  This is so as
long as no `Exec` returns before its goroutines, as it does when its context is cancelled; then a
goroutine that is left over stores its answers among those of a later `Exec`
(`leftover_answers_another`).
-/

namespace OlricStack.Dmap.Pipeline

open Transition

/-! ## The machine -/

variable {κ : Type*}

/-- The goroutine of one partition. -/
inductive Work (κ : Type*)
  | idle
  | ready
  /-- the commands are sent -/
  | sent (commands : List κ)
  | done
deriving DecidableEq

/-- The goroutine of a partition is not over. -/
def Work.running : Work κ → Bool
  | .ready | .sent _ => true
  | _ => false

/-- `FuturePut`, `FutureGet` and the others; `round` stands for the two contexts, and `late` says
that `Exec` was over when the command was queued. -/
structure Future (κ : Type*) where
  part : ℕ
  index : ℕ
  round : ℕ
  command : κ
  late : Bool
deriving DecidableEq

/-- An answer is known by its command.  A round ends with `Discard`, which makes new contexts;
`executed` is the end of `ctx` and `closed` that of `closedCtx`.  `exec` is the next partition of an
`Exec` that is running, and `clientless` has the partitions without a client in this round. -/
structure State (κ : Type*) where
  commands : ℕ → List κ
  result : ℕ → List κ
  round : ℕ
  executed : Bool
  closed : Bool
  exec : Option ℕ
  work : ℕ → ℕ → Work κ
  futures : List (Future κ)
  clientless : ℕ → Bool

namespace State

/-- A new pipeline. -/
def start : State κ :=
  ⟨fun _ => [], fun _ => [], 0, false, false, none, fun _ _ => .idle, [], fun _ => false⟩

/-- How far the goroutine of a partition has come in a round. -/
def setWork (s : State κ) (round part : ℕ) (w : Work κ) : State κ :=
  { s with work := Function.update s.work round (Function.update (s.work round) part w) }

/-- `addCommand`. -/
def addCommand (s : State κ) (part : ℕ) (command : κ) : State κ :=
  { s with
    commands := Function.update s.commands part (s.commands part ++ [command])
    futures := s.futures ++
      [⟨part, (s.commands part).length, s.round, command, s.executed⟩] }

/-- `Discard`. -/
def discard (s : State κ) : State κ :=
  { s with
    commands := fun _ => []
    result := fun _ => []
    round := s.round + 1
    executed := false
    clientless := fun _ => false }

end State

/-- What the user of the pipeline and its goroutines do. -/
inductive Action (κ : Type*)
  | add (part : ℕ) (command : κ)
  | begin
  | spawn
  /-- `sem.Acquire` fails -/
  | giveUp
  /-- `errGr.Wait` returns -/
  | wait
  | connect (round part : ℕ) (found : Bool)
  | store (round part : ℕ)
  | discard
  | close
deriving DecidableEq

variable (partitionCount : ℕ)

/-- One caller uses the pipeline, and waits for `Exec`. -/
def step (s : State κ) : Action κ → Option (State κ)
  | .add part command =>
    if s.exec ≠ none ∨ partitionCount ≤ part then none else some (s.addCommand part command)
  | .begin =>
    if s.exec ≠ none ∨ s.closed ∨ s.executed then none else some { s with exec := some 0 }
  | .spawn =>
    match s.exec with
    | some i =>
      if i < partitionCount then some { s.setWork s.round i .ready with exec := some (i + 1) }
      else none
    | none => none
  | .giveUp =>
    match s.exec with
    | some i => if i < partitionCount then some { s with exec := none, executed := true } else none
    | none => none
  | .wait =>
    match s.exec with
    | some i =>
      if i < partitionCount ∨
          (List.range partitionCount).any fun part => (s.work s.round part).running then none
      else some { s with exec := none, executed := true }
    | none => none
  | .connect round part found =>
    match s.work round part, found with
    | .ready, true => some (s.setWork round part (.sent (s.commands part)))
    | .ready, false =>
      some { s.setWork round part .done with
        clientless := Function.update s.clientless part true }
    | _, _ => none
  | .store round part =>
    match s.work round part with
    | .sent commands =>
      some { s.setWork round part .done with result := Function.update s.result part commands }
    | _ => none
  | .discard => if s.exec ≠ none ∨ s.closed then none else some s.discard
  | .close => if s.exec ≠ none then none else some { s with closed := true }

/-- What a future returns. -/
inductive Outcome (κ : Type*)
  /-- `ErrPipelineClosed` -/
  | closed
  /-- `ErrNotReady` -/
  | notReady
  | answer (command : κ)
  /-- index out of range -/
  | panics
deriving DecidableEq

/-- `Result` of a future. -/
def Future.result (s : State κ) (f : Future κ) : Outcome κ :=
  if f.round ≠ s.round ∨ s.closed then .closed
  else if s.executed = false then .notReady
  else
    match (s.result f.part)[f.index]? with
    | some command => .answer command
    | none => .panics

/-! ## What a round keeps -/

/-- What the goroutine of a partition has come to, for the commands of the partition, their answers,
whether there is no client, and whether `Exec` is over. -/
def Work.Fits (commands result : List κ) (clientless executed : Bool) : Work κ → Prop
  | .idle | .ready => result = [] ∧ clientless = false
  | .sent queue => queue = commands ∧ result = [] ∧ clientless = false
  | .done =>
    result = [] ∧ clientless = true ∨
      result <+: commands ∧ clientless = false ∧ (executed = false → result = commands)

/-- A future belongs to its command, and to its place among the results. -/
structure Kept (s : State κ) (f : Future κ) : Prop where
  part : f.part < partitionCount
  queued : (s.commands f.part)[f.index]? = some f.command
  late : f.late = true → s.executed = true ∧ (s.result f.part).length ≤ f.index
  early : f.late = false → s.executed = true →
    s.clientless f.part = true ∨ (s.result f.part)[f.index]? = some f.command

/-- What holds in every run in which no `Exec` leaves goroutines behind. -/
structure Sound (s : State κ) : Prop where
  fits : ∀ part, (s.work s.round part).Fits (s.commands part) (s.result part)
    (s.clientless part) s.executed
  active : ∀ round part, (s.work round part).running = true → round = s.round ∧ s.exec ≠ none
  fresh : ∀ round part, s.round < round → s.work round part = .idle
  running : ∀ i, s.exec = some i → s.executed = false ∧ i ≤ partitionCount ∧
    ∀ part, s.work s.round part = .idle ↔ i ≤ part
  waiting : s.exec = none → s.executed = false → ∀ part, s.work s.round part = .idle
  rounds : ∀ f ∈ s.futures, f.round ≤ s.round
  futures : ∀ f ∈ s.futures, f.round = s.round → Kept partitionCount s f

variable {partitionCount} {s s' : State κ}

namespace State

@[simp] theorem setWork_self (s : State κ) (round part : ℕ) (w : Work κ) :
    (s.setWork round part w).work round part = w := by
  simp [setWork]

theorem setWork_of_ne (s : State κ) (round : ℕ) {part q : ℕ} (w : Work κ) (other : q ≠ part) :
    (s.setWork round part w).work round q = s.work round q := by
  simp [setWork, other]

theorem setWork_of_round_ne (s : State κ) {round r : ℕ} (part q : ℕ) (w : Work κ)
    (other : r ≠ round) : (s.setWork round part w).work r q = s.work r q := by
  simp [setWork, other]

end State

namespace Work.Fits

variable {w : Work κ} {commands result : List κ} {clientless executed : Bool}

theorem length_le (h : w.Fits commands result clientless executed) :
    result.length ≤ commands.length := by
  cases w with
  | idle => simp [h.1]
  | ready => simp [h.1]
  | sent queue => simp [h.2.1]
  | done =>
    rcases h with ⟨none, -⟩ | ⟨answers, -, -⟩
    · simp [none]
    · exact answers.length_le

theorem eq_nil (h : w.Fits commands result true executed) : result = [] := by
  cases w with
  | idle => exact h.1
  | ready => exact h.1
  | sent queue => exact h.2.1
  | done =>
    rcases h with ⟨none, -⟩ | ⟨-, found, -⟩
    · exact none
    · cases found

/-- A command is queued while the goroutine does not run. -/
theorem queue (h : w.Fits commands result clientless executed) (still : w.running = false)
    (ran : w = .done → executed = true) {commands' : List κ} (grows : commands <+: commands') :
    w.Fits commands' result clientless executed := by
  cases w with
  | idle => exact h
  | ready => cases still
  | sent queue => cases still
  | done =>
    rcases h with none | ⟨answers, found, -⟩
    · exact .inl none
    · exact .inr ⟨answers.trans grows, found, fun early => by simp [ran rfl] at early⟩

/-- `Exec` ends. -/
theorem finish (h : w.Fits commands result clientless false) :
    w.Fits commands result clientless true := by
  cases w with
  | idle => exact h
  | ready => exact h
  | sent queue => exact h
  | done =>
    rcases h with none | ⟨answers, found, -⟩
    · exact .inl none
    · exact .inr ⟨answers, found, fun early => by cases early⟩

end Work.Fits

theorem Kept.beside {f : Future κ} (h : Kept partitionCount s f) (exec : Option ℕ) (closed : Bool)
    (work : ℕ → ℕ → Work κ) :
    Kept partitionCount { s with exec := exec, closed := closed, work := work } f :=
  ⟨h.part, h.queued, h.late, h.early⟩

theorem sound_start : Sound partitionCount (.start : State κ) where
  fits _ := ⟨rfl, rfl⟩
  active _ _ running := by cases running
  fresh _ _ _ := rfl
  running _ exec := by cases exec
  waiting _ _ _ := rfl
  rounds := by simp [State.start]
  futures := by simp [State.start]

namespace Sound

/-- Nothing runs between the calls of `Exec`. -/
theorem not_running (h : Sound partitionCount s) (exec : s.exec = none) (round part : ℕ) :
    (s.work round part).running = false := by
  by_contra running
  exact (h.active round part (by simpa using running)).2 exec

theorem addCommand (h : Sound partitionCount s) (exec : s.exec = none) {part : ℕ}
    (lt : part < partitionCount) (command : κ) :
    Sound partitionCount (s.addCommand part command) where
  fits q := by
    refine (h.fits q).queue (h.not_running exec _ q) (fun done => ?_) ?_
    · by_contra early
      have idle := h.waiting exec (by simpa using early) q
      rw [done] at idle
      cases idle
    · by_cases same : q = part
      · subst same
        simp [State.addCommand]
      · simp [State.addCommand, same]
  active := h.active
  fresh := h.fresh
  running := h.running
  waiting := h.waiting
  rounds := forall_mem_snoc h.rounds (Nat.le_refl s.round)
  futures := by
    refine forall_mem_snoc (fun f mem now => ?_) fun _ => ?_
    · have kept := h.futures f mem now
      refine ⟨kept.part, ?_, kept.late, kept.early⟩
      by_cases same : f.part = part
      · have queued := kept.queued
        rw [same] at queued
        simp only [State.addCommand, same, Function.update_self]
        rw [List.getElem?_append_left (List.getElem?_eq_some_iff.1 queued).1, queued]
      · simp only [State.addCommand, Function.update_of_ne same]
        exact kept.queued
    · refine ⟨lt, ?_, fun late => ⟨late, (h.fits part).length_le⟩, fun early executed => ?_⟩
      · simp [State.addCommand]
      · exact absurd (early.symm.trans executed) Bool.false_ne_true

theorem begin (h : Sound partitionCount s) (exec : s.exec = none) (early : s.executed = false) :
    Sound partitionCount { s with exec := some 0 } where
  fits := h.fits
  active round part running := by
    rw [h.not_running exec] at running
    cases running
  fresh := h.fresh
  running i at_i := by
    cases at_i
    exact ⟨early, Nat.zero_le _, fun part => iff_of_true (h.waiting exec early part) part.zero_le⟩
  waiting none := by cases none
  rounds := h.rounds
  futures f mem now := (h.futures f mem now).beside _ _ _

theorem spawn (h : Sound partitionCount s) {i : ℕ} (exec : s.exec = some i)
    (lt : i < partitionCount) :
    Sound partitionCount { s.setWork s.round i .ready with exec := some (i + 1) } where
  fits q := by
    have fits := h.fits q
    by_cases same : q = i
    · subst same
      rw [((h.running q exec).2.2 q).2 (Nat.le_refl q)] at fits
      exact (s.setWork_self s.round q .ready).symm ▸ fits
    · exact (s.setWork_of_ne s.round .ready same).symm ▸ fits
  active round part running := by
    refine ⟨?_, Option.some_ne_none _⟩
    by_cases same : round = s.round
    · exact same
    · change ((s.setWork s.round i .ready).work round part).running = true at running
      rw [s.setWork_of_round_ne i part .ready same] at running
      exact (h.active round part running).1
  fresh round part later :=
    (s.setWork_of_round_ne i part .ready (Nat.ne_of_gt later)).trans (h.fresh round part later)
  running j at_j := by
    obtain rfl : i + 1 = j := Option.some.inj at_j
    obtain ⟨early, -, idle⟩ := h.running i exec
    refine ⟨early, lt, fun part => ?_⟩
    change (s.setWork s.round i .ready).work s.round part = .idle ↔ _
    by_cases same : part = i
    · subst same
      simp
    · rw [s.setWork_of_ne s.round .ready same, idle part]
      omega
  waiting none := by cases none
  rounds := h.rounds
  futures f mem now := (h.futures f mem now).beside _ _ _

/-- All goroutines have ended when `Exec` does. -/
theorem wait (h : Sound partitionCount s) {i : ℕ} (exec : s.exec = some i)
    (all : ¬ i < partitionCount)
    (ended : ∀ part < partitionCount, (s.work s.round part).running = false) :
    Sound partitionCount { s with exec := none, executed := true } := by
  obtain ⟨early, le, idle⟩ := h.running i exec
  have done : ∀ part < partitionCount, s.work s.round part = .done := by
    intro part lt
    have started := mt (idle part).1 (by omega)
    have ran := ended part lt
    cases at_part : s.work s.round part with
    | idle => exact absurd at_part started
    | ready => simp [at_part, Work.running] at ran
    | sent queue => simp [at_part, Work.running] at ran
    | done => rfl
  refine ⟨fun part => ?_, fun round part running => ?_, h.fresh, fun i none => ?_,
    fun _ early => ?_, h.rounds, fun f mem now => ?_⟩
  · have fits := h.fits part
    rw [early] at fits
    exact fits.finish
  · obtain ⟨rfl, -⟩ := h.active round part running
    by_cases lt : part < partitionCount
    · change (s.work s.round part).running = true at running
      rw [ended part lt] at running
      cases running
    · change (s.work s.round part).running = true at running
      rw [(idle part).2 (by omega)] at running
      cases running
  · cases none
  · cases early
  · have kept := h.futures f mem now
    refine ⟨kept.part, kept.queued, fun late => ?_, fun _ _ => ?_⟩
    · have ran := (kept.late late).1
      rw [early] at ran
      cases ran
    · have fits := h.fits f.part
      rw [done f.part kept.part] at fits
      rcases fits with ⟨-, clientless⟩ | ⟨-, -, answered⟩
      · exact .inl clientless
      · right
        change (s.result f.part)[f.index]? = some f.command
        rw [answered early]
        exact kept.queued

/-- The goroutine of a partition goes on, and nothing of the other partitions changes. -/
theorem work (h : Sound partitionCount s) {part : ℕ}
    (running : (s.work s.round part).running = true) {w : Work κ} (started : w ≠ .idle)
    {result : ℕ → List κ} {clientless : ℕ → Bool}
    (others : ∀ q ≠ part, result q = s.result q ∧ clientless q = s.clientless q)
    (fits : w.Fits (s.commands part) (result part) (clientless part) s.executed) :
    Sound partitionCount
      { s.setWork s.round part w with result := result, clientless := clientless } := by
  have exec := (h.active s.round part running).2
  obtain ⟨i, at_i⟩ := Option.ne_none_iff_exists'.1 exec
  obtain ⟨early, le, idle⟩ := h.running i at_i
  refine ⟨fun q => ?_, fun round q runs => ?_, fun round q later => ?_, fun j at_j => ?_,
    fun none => absurd none exec, h.rounds, fun f mem now => ?_⟩
  · change ((s.setWork s.round part w).work s.round q).Fits _ (result q) (clientless q) _
    by_cases same : q = part
    · subst same
      rw [State.setWork_self]
      exact fits
    · rw [s.setWork_of_ne s.round w same, (others q same).1, (others q same).2]
      exact h.fits q
  · refine ⟨?_, exec⟩
    by_cases same : round = s.round
    · exact same
    · change ((s.setWork s.round part w).work round q).running = true at runs
      rw [s.setWork_of_round_ne part q w same] at runs
      exact (h.active round q runs).1
  · exact (s.setWork_of_round_ne part q w (Nat.ne_of_gt later)).trans (h.fresh round q later)
  · obtain rfl : i = j := Option.some.inj (at_i.symm.trans at_j)
    refine ⟨early, le, fun q => ?_⟩
    change (s.setWork s.round part w).work s.round q = .idle ↔ _
    by_cases same : q = part
    · subst same
      rw [State.setWork_self]
      refine iff_of_false started fun late => ?_
      rw [(idle q).2 late] at running
      cases running
    · rw [s.setWork_of_ne s.round w same]
      exact idle q
  · have kept := h.futures f mem now
    refine ⟨kept.part, kept.queued, fun late => ?_, fun _ ran => ?_⟩
    · have ran := (kept.late late).1
      rw [early] at ran
      cases ran
    · exact absurd (early.symm.trans ran) Bool.false_ne_true

theorem discard (h : Sound partitionCount s) (exec : s.exec = none) :
    Sound partitionCount s.discard where
  fits q := by
    change (s.work (s.round + 1) q).Fits [] [] false false
    rw [h.fresh _ q (Nat.lt_succ_self _)]
    exact ⟨rfl, rfl⟩
  active round part running := by
    change (s.work round part).running = true at running
    rw [h.not_running exec] at running
    cases running
  fresh round part later := h.fresh round part (Nat.lt_of_succ_lt later)
  running i at_i := by
    change s.exec = some i at at_i
    rw [exec] at at_i
    cases at_i
  waiting _ _ part := h.fresh _ part (Nat.lt_succ_self _)
  rounds f mem := Nat.le_succ_of_le (h.rounds f mem)
  futures f mem now := absurd (h.rounds f mem) (by
    change f.round = s.round + 1 at now
    omega)

theorem close (h : Sound partitionCount s) : Sound partitionCount { s with closed := true } where
  fits := h.fits
  active := h.active
  fresh := h.fresh
  running := h.running
  waiting := h.waiting
  rounds := h.rounds
  futures f mem now := (h.futures f mem now).beside _ _ _

theorem step {a : Action κ} (h : Sound partitionCount s) (waits : a ≠ .giveUp)
    (enabled : step partitionCount s a = some s') : Sound partitionCount s' := by
  cases a with
  | add part command =>
    simp only [Pipeline.step] at enabled
    split_ifs at enabled with busy
    cases enabled
    obtain ⟨exec, lt⟩ := not_or.1 busy
    exact h.addCommand (not_not.1 exec) (Nat.lt_of_not_le lt) command
  | begin =>
    simp only [Pipeline.step] at enabled
    split_ifs at enabled with busy
    cases enabled
    obtain ⟨exec, ran⟩ := not_or.1 busy
    exact h.begin (not_not.1 exec) (by simpa using (not_or.1 ran).2)
  | spawn =>
    simp only [Pipeline.step] at enabled
    split at enabled <;> try cases enabled
    split_ifs at enabled with lt
    cases enabled
    exact h.spawn ‹_› lt
  | giveUp => exact absurd rfl waits
  | wait =>
    simp only [Pipeline.step] at enabled
    split at enabled <;> try cases enabled
    split_ifs at enabled with busy
    cases enabled
    obtain ⟨all, ended⟩ := not_or.1 busy
    refine h.wait ‹_› all fun part lt => ?_
    simpa using fun running => ended (List.any_eq_true.2 ⟨part, List.mem_range.2 lt, running⟩)
  | connect round part found =>
    simp only [Pipeline.step] at enabled
    split at enabled <;> cases enabled
    · next ready =>
      have running : (s.work round part).running = true := by rw [ready]; rfl
      obtain rfl := (h.active round part running).1
      have fits := h.fits part
      rw [ready] at fits
      exact h.work running (by simp) (fun _ _ => ⟨rfl, rfl⟩) ⟨rfl, fits⟩
    · next ready =>
      have running : (s.work round part).running = true := by rw [ready]; rfl
      obtain rfl := (h.active round part running).1
      have fits := h.fits part
      rw [ready] at fits
      refine h.work running (by simp) (fun q other => ⟨rfl, Function.update_of_ne other ..⟩) ?_
      exact .inl ⟨fits.1, Function.update_self ..⟩
  | store round part =>
    simp only [Pipeline.step] at enabled
    split at enabled <;> cases enabled
    next commands sent =>
      have running : (s.work round part).running = true := by rw [sent]; rfl
      obtain rfl := (h.active round part running).1
      have fits := h.fits part
      rw [sent] at fits
      obtain ⟨rfl, -, found⟩ := fits
      refine h.work running (by simp) (fun q other => ⟨Function.update_of_ne other .., rfl⟩) ?_
      rw [Function.update_self]
      exact .inr ⟨List.prefix_rfl, found, fun _ => rfl⟩
  | discard =>
    simp only [Pipeline.step] at enabled
    split_ifs at enabled with busy
    cases enabled
    exact h.discard (not_not.1 (not_or.1 busy).1)
  | close =>
    simp only [Pipeline.step] at enabled
    split_ifs at enabled
    cases enabled
    exact h.close

/-- What a future of this round finds once `Exec` is over. -/
theorem lookup (h : Sound partitionCount s) {f : Future κ} (mem : f ∈ s.futures)
    (now : f.round = s.round) (executed : s.executed = true) :
    (s.result f.part)[f.index]? =
      if f.late ∨ s.clientless f.part then none else some f.command := by
  have kept := h.futures f mem now
  split_ifs with lost
  · refine List.getElem?_eq_none ?_
    rcases lost with late | clientless
    · exact (kept.late late).2
    · have fits := h.fits f.part
      rw [clientless] at fits
      simp [fits.eq_nil]
  · obtain ⟨early, found⟩ := not_or.1 lost
    exact (kept.early (by simpa using early) executed).resolve_left found

end Sound

/-- The context of an `Exec` is cancelled while the first of two goroutines runs, and the pipeline
is discarded and used again.  The goroutine stores its answer after the next `Exec`, and the future
of the command 8 returns the answer to the command 7. -/
theorem leftover_answers_another :
    ∃ s : State ℕ, Run (step 2) anyAction .start
        [.add 0 7, .begin, .spawn, .connect 0 0 true, .giveUp, .discard, .add 0 8, .begin, .spawn,
          .spawn, .connect 1 0 true, .connect 1 1 true, .store 1 0, .store 1 1, .wait,
          .store 0 0] s ∧
      ⟨0, 0, 1, 8, false⟩ ∈ s.futures ∧ Future.result s ⟨0, 0, 1, 8, false⟩ = .answer 7 :=
  Run.exists_of_exec (step 2) anyAction .start _ _ (by decide)

end OlricStack.Dmap.Pipeline
