import OlricStack.Sidecar.Restart

/-!
# Stopping gracefully

When the context of `Run` is cancelled while it waits, `finalDrain` alternates between draining the
ring and flushing until a round has drained nothing.  With nobody else draining and room in the
pending set that leaves the ring and the pending set empty (`graceful_stop_drains`).  A flush that
fails because the context was cancelled under it ends `Run` before `finalDrain`
(`cancelled_flush_leaves_entries`), a full pending set ends `finalDrain` with entries in the ring
(`full_pending_leaves_ring`), and a `DrainPartition` call can put an entry that it does not flush
when `finalDrain` is over (`late_put_leaves_pending`).
-/

namespace OlricStack.Sidecar

open Transition

/-! ## Conditions -/

/-- The thread is in `drainRing`. -/
def Pc.InDrainRing : Pc → Bool
  | .draining _ => true
  | .popping _ => true
  | .popped _ _ => true
  | _ => false

/-- `Run` has seen its context cancelled. -/
def Stopping (s : State) : Prop := ∃ th ∈ s.threads, th.caller = .finalDrain

/-- The context of a flush can be cancelled: that of `Run` is shared, `finalDrain` has its own, and
that of a call belongs to its client. -/
def Caller.cancellable (cancelled : Bool) : Caller → Bool
  | .run => cancelled
  | .finalDrain => false
  | .drainPartition .. => true
  | .shutdown => true

/-- `UpsertEntries` fails only with a cancelled context, and then commits nothing. -/
def FailsCancelled (s : State) : Action → Prop
  | .thread i (.fail committed) =>
    committed = [] ∧ ∀ th ∈ s.threads[i]?, th.caller.cancellable s.cancelled = true
  | _ => True

/-- The flushes of `Run` do not fail.  When it sees its context cancelled, the producer has stopped,
no `DrainPartition` call drains the ring and none does so later, and there is room in the pending
set when a round of `finalDrain` begins. -/
def Graceful (srv : Server) (s : State) : Action → Prop
  | .append _ => ¬Stopping s
  | .call c => Stopping s → c = .shutdown
  | .thread i (.fail _) => i ≠ 0
  | .thread _ .done => ∀ th ∈ s.threads, th.pc.InDrainRing = false
  | .thread i .go =>
    s.threads[i]? = some ⟨.finalDrain, .draining 0⟩ → srv.pendingFull s.pending = false
  | _ => True

instance (s : State) : Decidable (Stopping s) := by
  unfold Stopping
  infer_instance

instance (s : State) : DecidablePred (FailsCancelled s)
  | .thread _ (.fail _) => inferInstanceAs (Decidable (_ ∧ ∀ th ∈ _, _ = true))
  | .thread _ .go | .thread _ (.order _) | .thread _ .done | .append _ | .call _ | .load _
  | .lookup _ _ | .readRow _ _ _ | .purge _ | .purgePending _ | .purgeRows _ _ | .cancel
  | .restart => isTrue trivial

instance (srv : Server) (s : State) : DecidablePred (Graceful srv s)
  | .append _ => inferInstanceAs (Decidable ¬_)
  | .call _ => inferInstanceAs (Decidable (Stopping s → _ = _))
  | .thread _ (.fail _) => inferInstanceAs (Decidable (_ ≠ _))
  | .thread _ .done => inferInstanceAs (Decidable (∀ th ∈ s.threads, _ = _))
  | .thread _ .go => inferInstanceAs (Decidable (_ = _ → _ = _))
  | .thread _ (.order _) | .load _ | .lookup _ _ | .readRow _ _ _ | .purge _ | .purgePending _
  | .purgeRows _ _ | .cancel | .restart => isTrue trivial

/-! ## Threads -/

/-- A `DrainPartition` or `Shutdown` call. -/
structure Thread.IsCall (th : Thread) : Prop where
  enters : th.caller.entry ≠ none
  serves : th.pc ≠ .waiting

theorem Caller.afterFlush_of_entry {c : Caller} (enters : c.entry ≠ none) (drained : ℕ) :
    c.afterFlush drained = .returned true := by
  cases c with
  | run | finalDrain => exact absurd rfl enters
  | drainPartition | shutdown => rfl

/-- How far a round of `finalDrain` that has drained nothing has come. -/
def Pc.Cleared (sh : Shared) : Pc → Prop
  | .drained 0 => sh.ring = []
  | .collected 0 entries => sh.ring = [] ∧ ∀ e ∈ sh.pending.entries.toList, e ∈ entries
  | .upserted 0 entries => sh.ring = [] ∧ ∀ e ∈ sh.pending.entries.toList, e ∈ entries
  | .returned _ => sh.ring = [] ∧ sh.pending.entries.toList = []
  | .waiting => False
  | _ => True

/-- Entries are only removed from the pending set, and none is taken from the ring. -/
structure Shared.Shrinks (sh sh' : Shared) : Prop where
  ring : sh'.ring = sh.ring
  pending : ∀ e ∈ sh'.pending.entries.toList, e ∈ sh.pending.entries.toList

theorem Shared.Shrinks.refl (sh : Shared) : sh.Shrinks sh := ⟨rfl, fun _ h => h⟩

theorem Pc.Cleared.shrink {sh sh' : Shared} {pc : Pc} (h : pc.Cleared sh) (less : sh.Shrinks sh') :
    pc.Cleared sh' := by
  have all {entries : List Entry}
      (h : sh.ring = [] ∧ ∀ e ∈ sh.pending.entries.toList, e ∈ entries) :
      sh'.ring = [] ∧ ∀ e ∈ sh'.pending.entries.toList, e ∈ entries :=
    ⟨less.ring.trans h.1, fun e held => h.2 e (less.pending e held)⟩
  cases pc with
  | drained count =>
    cases count with
    | zero => exact less.ring.trans h
    | succ => trivial
  | collected drained entries | upserted drained entries =>
    cases drained with
    | zero => exact all h
    | succ => trivial
  | returned =>
    refine ⟨less.ring.trans h.1, List.eq_nil_iff_forall_not_mem.2 fun e held => ?_⟩
    have gone := less.pending e held
    rw [h.2] at gone
    cases gone
  | waiting => exact h
  | draining | popping | popped => trivial

section

variable {srv : Server} {cancelled : Bool} {sh sh' : Shared} {th th' : Thread} {ch : Choice}

theorem mem_of_mem_drop {p : Pending} {x : Entry} {e : Entry}
    (h : e ∈ (p.drop x.ref x.ownerSeq).entries.toList) : e ∈ p.entries.toList ∧ e ≠ x := by
  have held : e ∈ p.entries.toList := by
    rw [Pending.mem_iff_get] at h ⊢
    exact p.get_of_get_drop h
  refine ⟨held, ?_⟩
  rintro rfl
  exact (p.not_mem_drop_iff held).2 ⟨rfl, le_rfl⟩ h

theorem Thread.IsCall.step (isCall : th.IsCall)
    (h : srv.stepThread cancelled sh th ch = some (sh', th')) : th'.IsCall ∧
      (th.pc.InDrainRing = false → th'.pc.InDrainRing = false ∧ sh.Shrinks sh') := by
  obtain ⟨c, pc⟩ := th
  obtain ⟨enters, serves⟩ := isCall
  have done (drained : ℕ) : c.afterFlush drained = .returned true :=
    c.afterFlush_of_entry enters drained
  cases Server.stepThread_pcStep h with
  | full | room | empty | pop | reject => exact ⟨⟨enters, nofun⟩, nofun⟩
  | put good next =>
    refine ⟨⟨enters, ?_⟩, nofun⟩
    rcases next with rfl | rfl <;> nofun
  | nothing | flushed =>
    rw [done]
    exact ⟨⟨enters, nofun⟩, fun _ => ⟨rfl, .refl sh⟩⟩
  | collect => exact ⟨⟨enters, nofun⟩, fun _ => ⟨rfl, .refl sh⟩⟩
  | upsert | fail => exact ⟨⟨enters, nofun⟩, fun _ => ⟨rfl, rfl, fun _ held => held⟩⟩
  | drop => exact ⟨⟨enters, nofun⟩, fun _ => ⟨rfl, rfl, fun _ held => (mem_of_mem_drop held).1⟩⟩
  | again | stop => exact absurd rfl serves

/-- `Run` goes on, unless its flush fails or a payload does not decode, until it sees its context
cancelled. -/
theorem stepThread_run {pc : Pc} (saves : ∀ committed, ch ≠ .fail committed)
    (decodes : ch = .go → ∀ e ∈ (Thread.mk .run pc).hand, (decode e).isOk)
    (h : srv.stepThread cancelled sh ⟨.run, pc⟩ ch = some (sh', th')) :
    (th'.caller = .run ∧ ∀ ok, th'.pc ≠ .returned ok) ∨
      ch = .done ∧ th' = ⟨.finalDrain, .draining 0⟩ := by
  cases Server.stepThread_pcStep h with
  | full | room | empty | pop | nothing | collect | upsert | drop | flushed | again =>
    exact .inl ⟨rfl, nofun⟩
  | put good next =>
    refine .inl ⟨rfl, ?_⟩
    rcases next with rfl | rfl <;> nofun
  | reject bad => exact absurd (decodes rfl _ rfl) bad
  | fail => exact absurd rfl (saves _)
  | stop => exact .inr ⟨rfl, rfl⟩

theorem cleared_afterFlush {drained : ℕ}
    (clear : drained = 0 → sh.ring = [] ∧ sh.pending.entries.toList = []) :
    (Caller.finalDrain.afterFlush drained).Cleared sh := by
  unfold Caller.afterFlush
  dsimp only
  split_ifs with last
  · exact clear last
  · trivial

/-- `finalDrain` returns with the ring and the pending set empty. -/
theorem Pc.Cleared.step {pc : Pc} (cleared : pc.Cleared sh)
    (saves : ∀ committed, ch ≠ .fail committed)
    (decodes : ch = .go → ∀ e ∈ (Thread.mk .finalDrain pc).hand, (decode e).isOk)
    (room : ch = .go → pc = .draining 0 → srv.pendingFull sh.pending = false)
    (h : srv.stepThread cancelled sh ⟨.finalDrain, pc⟩ ch = some (sh', th')) :
    th'.caller = .finalDrain ∧ th'.pc.Cleared sh' := by
  cases Server.stepThread_pcStep h with
  | @full count full =>
    refine ⟨rfl, ?_⟩
    cases count with
    | zero => exact absurd full (Bool.eq_false_iff.1 (room rfl rfl))
    | succ => trivial
  | room | pop => exact ⟨rfl, trivial⟩
  | @empty count empty =>
    refine ⟨rfl, ?_⟩
    cases count with
    | zero => exact empty
    | succ => trivial
  | reject bad => exact absurd (decodes rfl _ rfl) bad
  | put good next =>
    refine ⟨rfl, ?_⟩
    rcases next with rfl | rfl <;> trivial
  | @nothing count none =>
    refine ⟨rfl, cleared_afterFlush fun last => ?_⟩
    subst last
    exact ⟨cleared, none.nil_eq.symm⟩
  | @collect count entries copied =>
    refine ⟨rfl, ?_⟩
    cases count with
    | zero => exact ⟨cleared, fun e held => copied.mem_iff.2 held⟩
    | succ => trivial
  | @upsert drained entries =>
    refine ⟨rfl, ?_⟩
    cases drained with
    | zero => exact cleared
    | succ => trivial
  | fail => exact absurd rfl (saves _)
  | @drop drained x rest =>
    refine ⟨rfl, ?_⟩
    cases drained with
    | zero =>
      refine ⟨cleared.1, fun e held => ?_⟩
      obtain ⟨held, other⟩ := mem_of_mem_drop held
      exact (List.mem_cons.1 (cleared.2 e held)).resolve_left other
    | succ => trivial
  | flushed =>
    refine ⟨rfl, cleared_afterFlush fun last => ?_⟩
    subst last
    refine ⟨cleared.1, List.eq_nil_iff_forall_not_mem.2 fun e held => ?_⟩
    exact absurd (cleared.2 e held) List.not_mem_nil
  | again | stop => exact cleared.elim

end

/-! ## Runs -/

/-- `Run` has not returned and not seen its context cancelled, or it is in `finalDrain`, where no
call is in `drainRing`. -/
structure Supervised (s : State) (main : Thread) (calls : List Thread) : Prop where
  threads : s.threads = main :: calls
  serve : ∀ th ∈ calls, th.IsCall
  drains : (main.caller = .run ∧ ∀ ok, main.pc ≠ .returned ok) ∨
    main.caller = .finalDrain ∧ main.pc.Cleared s.toShared ∧ ∀ th ∈ calls, th.pc.InDrainRing = false

namespace Supervised

variable {srv : Server} {s u : State} {main : Thread} {calls : List Thread}

theorem of_fresh (fresh : s.threads = [runThread]) : Supervised s runThread [] :=
  ⟨fresh, fun _ member => absurd member List.not_mem_nil, .inl ⟨rfl, nofun⟩⟩

theorem stopping (h : Supervised s main calls) (final : main.caller = .finalDrain) : Stopping s :=
  ⟨main, h.threads ▸ List.mem_cons_self, final⟩

theorem thread (h : Supervised s main calls) {i : ℕ} {ch : Choice}
    (forward : PutsForward s (.thread i ch)) (graceful : Graceful srv s (.thread i ch))
    (enabled : srv.step s (.thread i ch) = some u) :
    ∃ main' calls', Supervised u main' calls' := by
  obtain ⟨th, at_i, enabled⟩ := Option.bind_eq_some_iff.1 enabled
  obtain ⟨⟨sh', th'⟩, does, enabled⟩ := Option.bind_eq_some_iff.1 enabled
  cases enabled
  cases i with
  | zero =>
    obtain rfl : main = th := by
      rw [h.threads] at at_i
      exact Option.some.inj at_i
    have threads : s.threads.set 0 th' = th' :: calls := by rw [h.threads, List.set_cons_zero]
    have saves (committed : List EntryRecord) : ch ≠ .fail committed := by
      rintro rfl
      exact graceful rfl
    have decodes (go : ch = .go) : ∀ e ∈ main.hand, (decode e).isOk := by
      subst go
      intro e hand
      refine (forward e ?_).1
      rw [putting, at_i]
      exact hand
    obtain ⟨c, pc⟩ := main
    rcases h.drains with ⟨rfl, -⟩ | ⟨rfl, cleared, away⟩
    · rcases stepThread_run saves decodes does with still | ⟨rfl, rfl⟩
      · exact ⟨th', calls, threads, h.serve, .inl still⟩
      · refine ⟨_, calls, threads, h.serve, .inr ⟨rfl, trivial, fun th member => ?_⟩⟩
        exact graceful th (h.threads ▸ List.mem_cons_of_mem _ member)
    · have room (go : ch = .go) (begins : pc = .draining 0) :
          srv.pendingFull s.pending = false := by
        subst go begins
        exact graceful at_i
      obtain ⟨final, cleared'⟩ := cleared.step saves decodes room does
      exact ⟨th', calls, threads, h.serve, .inr ⟨final, cleared', away⟩⟩
  | succ j =>
    rw [h.threads, List.getElem?_cons_succ] at at_i
    obtain ⟨isCall, away'⟩ := (h.serve th (List.mem_of_getElem? at_i)).step does
    refine ⟨main, calls.set j th', ?_, forall_mem_set h.serve isCall, ?_⟩
    · dsimp only
      rw [h.threads, List.set_cons_succ]
    · rcases h.drains with running | ⟨final, cleared, away⟩
      · exact .inl running
      · obtain ⟨away', less⟩ := away' (away th (List.mem_of_getElem? at_i))
        exact .inr ⟨final, cleared.shrink less, forall_mem_set away away'⟩

theorem call (h : Supervised s main calls) {c : Caller} (graceful : Graceful srv s (.call c))
    (enabled : srv.step s (.call c) = some u) : ∃ calls', Supervised u main calls' := by
  obtain ⟨pc, enters, rfl⟩ := Option.map_eq_some_iff.1 enabled
  have isCall : (Thread.mk c pc).IsCall := by
    refine ⟨by rw [enters]; nofun, ?_⟩
    rintro rfl
    cases c with
    | run | finalDrain | shutdown => cases enters
    | drainPartition =>
      have waits := Option.some.inj enters
      split_ifs at waits
  refine ⟨calls ++ [⟨c, pc⟩], ?_, forall_mem_snoc h.serve isCall, ?_⟩
  · dsimp only
    rw [h.threads, List.cons_append]
  · rcases h.drains with running | ⟨final, cleared, away⟩
    · exact .inl running
    · obtain rfl := graceful (h.stopping final)
      cases enters
      exact .inr ⟨final, cleared, forall_mem_snoc away rfl⟩

theorem step (h : Supervised s main calls) {a : Action} (lossless : Lossless s a)
    (graceful : Graceful srv s a) (enabled : srv.step s a = some u) :
    ∃ main' calls', Supervised u main' calls' := by
  obtain ⟨noPurge, forward, -, -⟩ := lossless
  cases a with
  | thread i ch => exact h.thread forward graceful enabled
  | call c => exact ⟨main, h.call graceful enabled⟩
  | append e =>
    cases enabled
    refine ⟨main, calls, h.threads, h.serve, h.drains.imp_right fun ⟨final, _⟩ => ?_⟩
    exact absurd (h.stopping final) graceful
  | restart =>
    cases enabled
    exact ⟨runThread, [], of_fresh rfl⟩
  | purgePending | purgeRows => exact noPurge.elim
  | load | lookup | readRow | purge | cancel =>
    cases Server.step_spec enabled with
    | quiet => exact ⟨main, calls, h.threads, h.serve, h.drains⟩

end Supervised

/-- Take any run along which no entry is lost.  If the flushes of `Run` succeed, no `DrainPartition`
call drains the ring once `Run` has seen its context cancelled and `finalDrain` finds room, then
when all have returned the ring and the pending set are empty and every appended entry is dominated
by its row. -/
theorem graceful_stop_drains (srv : Server) (t : Table) {as : List Action} {s : State}
    (run : Run srv.step (fun s a => Lossless s a ∧ Graceful srv s a) (.start t) as s)
    (returned : ∀ th ∈ s.threads, ∃ ok, th.pc = .returned ok) :
    s.ring = [] ∧ s.pending.entries.toList = [] ∧
      ∀ e ∈ s.appended, s.table.Dominates e.ref.rowKey e.fence := by
  obtain ⟨main, calls, supervised⟩ := run.invariant
    (fun s => ∃ main calls, Supervised s main calls)
    ⟨runThread, [], .of_fresh rfl⟩
    fun _ _ _ ⟨_, _, h⟩ ⟨lossless, graceful⟩ enabled => h.step lossless graceful enabled
  obtain ⟨ok, ended⟩ := returned main (supervised.threads ▸ List.mem_cons_self)
  rcases supervised.drains with ⟨-, running⟩ | ⟨-, cleared, -⟩
  · exact absurd ended (running ok)
  · rw [ended] at cleared
    obtain ⟨ring, pending⟩ := cleared
    refine ⟨ring, pending, fun e appended => ?_⟩
    have free : ∀ th ∈ s.threads, th.hand = none := by
      intro th member
      obtain ⟨ok, ended⟩ := returned th member
      rw [Thread.hand, ended]
    have held := held_of_run (run.mono fun _ _ h => h.1) e appended
    rcases held.settled free with unread | ⟨e', found, -⟩ | stored
    · rw [ring] at unread
      cases unread
    · have held := s.pending.entries.lookup_eq_some_iff.1 found
      rw [pending] at held
      cases held.1
    · exact stored

/-- The next `n` steps of a thread. -/
def steps (i n : ℕ) : List Action := List.replicate n (.thread i .go)

/-- `Run` flushes one entry and waits.  Another is appended and the context is cancelled; while
`finalDrain` drains it, a `Shutdown` call flushes it as well. -/
def gracefulRun : List Action :=
  let e := setEntry 1 1 2 [97]
  .append (setEntry 1 1 1 [97]) :: steps 0 5 ++ .thread 0 (.order [setEntry 1 1 1 [97]]) ::
    steps 0 3 ++ [.append e, .cancel, .thread 0 .done, .call .shutdown] ++ steps 0 5 ++
    [.thread 1 (.order [e]), .thread 0 (.order [e])] ++ steps 1 3 ++ steps 0 5 ++
    [.thread 0 (.order [])]

theorem graceful_stop_drains_two :
    ∃ s, Run plainServer.step (fun s a => Lossless s a ∧ Graceful plainServer s a) (.start .empty)
        gracefulRun s ∧
      s.appended = [setEntry 1 1 1 [97], setEntry 1 1 2 [97]] ∧ s.ring = [] ∧
      s.pending.entries.toList = [] ∧
      ∀ e ∈ s.appended, s.table.Dominates e.ref.rowKey e.fence := by
  obtain ⟨s, run, appended, returned⟩ := Run.exists_of_exec plainServer.step
    (fun s a => Lossless s a ∧ Graceful plainServer s a) (.start .empty) gracefulRun
    (fun s => s.appended = [setEntry 1 1 1 [97], setEntry 1 1 2 [97]] ∧
      ∀ th ∈ s.threads, ∃ ok, th.pc = .returned ok) (by decide +kernel)
  exact ⟨s, run, appended, graceful_stop_drains plainServer .empty run returned⟩

/-- A server that drains one entry at a time. -/
def singleServer : Server := newServer (newMySQLBackend .mysql 256) ⟨1, 0, 0⟩

/-- The context is cancelled while `Run` flushes the first of two entries.  `UpsertEntries` fails,
`Run` returns the error, and neither entry is in the table. -/
theorem cancelled_flush_leaves_entries :
    ∃ s, Run singleServer.step (fun s a => Lossless s a ∧ FailsCancelled s a) (.start .empty)
        ([.append (setEntry 1 1 1 [97]), .append (setEntry 1 1 2 [97])] ++ steps 0 3 ++
          [.thread 0 (.order [setEntry 1 1 1 [97]]), .cancel, .thread 0 (.fail [])]) s ∧
      (∀ th ∈ s.threads, ∃ ok, th.pc = .returned ok) ∧ s.ring = [setEntry 1 1 2 [97]] ∧
      s.pending.entries.toList = [setEntry 1 1 1 [97]] ∧
      ∀ e ∈ s.appended, ¬s.table.Dominates e.ref.rowKey e.fence := by
  apply Run.exists_of_exec
  decide +kernel

/-- A server with room for one pending entry. -/
def tightServer : Server := newServer (newMySQLBackend .mysql 256) ⟨256, 1, 0⟩

/-- While `Run` waits, a `DrainPartition` call for another map fills the pending set.  `finalDrain`
finds it full, drains nothing, flushes it and returns; the second entry stays in the ring. -/
theorem full_pending_leaves_ring :
    ∃ s, Run tightServer.step (fun s a => Lossless s a ∧ FailsCancelled s a) (.start .empty)
        (steps 0 2 ++ [.thread 0 (.order []), .append (setEntry 1 1 1 [97]),
          .append (setEntry 1 1 2 [97]), .call (.drainPartition [101] 0 1)] ++ steps 1 4 ++
          [.thread 1 (.order []), .cancel, .thread 0 .done, .thread 0 .go,
            .thread 0 (.order [setEntry 1 1 1 [97]])] ++ steps 0 3) s ∧
      (∀ th ∈ s.threads, ∃ ok, th.pc = .returned ok) ∧ s.ring = [setEntry 1 1 2 [97]] := by
  apply Run.exists_of_exec
  decide +kernel

/-- A `DrainPartition` call for another map has popped the entry when `finalDrain` finds the ring
empty, and puts it when `Run` has returned. -/
theorem late_put_leaves_pending :
    ∃ s, Run plainServer.step (fun s a => Lossless s a ∧ FailsCancelled s a) (.start .empty)
        (steps 0 2 ++ [.thread 0 (.order []), .append (setEntry 1 1 1 [97]),
          .call (.drainPartition [101] 0 1)] ++ steps 1 2 ++ [.cancel, .thread 0 .done] ++
          steps 0 2 ++ [.thread 0 (.order [])] ++ steps 1 3 ++ [.thread 1 (.order [])]) s ∧
      (∀ th ∈ s.threads, ∃ ok, th.pc = .returned ok) ∧
      s.pending.entries.toList = [setEntry 1 1 1 [97]] := by
  apply Run.exists_of_exec
  decide +kernel

end OlricStack.Sidecar
