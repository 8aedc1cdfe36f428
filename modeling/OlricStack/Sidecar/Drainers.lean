import OlricStack.Sidecar.MissRead

/-!
# Several drainers

`Run` and every `DrainPartition` call drain the ring from goroutines of their own, and `put` stores
what it is given.  As long as a thread puts an entry only while no other thread still holds an older
one of the same reference, and drops remove only what was flushed, the newest popped entry of every
reference is pending or in the table (`newest_popped_kept`).  Two drainers that put in the opposite
order of their pops leave the older entry in its place (`drainers_put_out_of_order`).
-/

namespace OlricStack.Sidecar

open Transition

/-! ## Popped entries -/

/-- A thread has popped `e`; a payload that does not decode is not an entry. -/
def Popped (s : State) (e : Entry) : Prop := e ∈ s.appended ∧ e ∉ s.ring ∧ (decode e).isOk

/-- The popped entry with the largest fence among those of its reference. -/
def NewestPopped (s : State) (e : Entry) : Prop :=
  Popped s e ∧ ∀ x, Popped s x → x.ref = e.ref → x.fence ≤ e.fence

/-! ## Conditions -/

/-- Entries of one reference are appended with strictly increasing fences. -/
def AppendsIncreasing (s : State) : Action → Prop
  | .append e => ∀ x ∈ s.appended, x.ref = e.ref → x.fence < e.fence
  | _ => True

/-- The threads of one process drain, flush and read. -/
def OneProcess (s : State) (a : Action) : Prop := AppendsIncreasing s a ∧ NoPurge a ∧ a ≠ .restart

/-- What the threads other than `i` hold of the reference is newer than `e`. -/
def OldestInHand (s : State) (i : ℕ) (e : Entry) : Prop :=
  ∀ j < s.threads.length, j ≠ i →
    ∀ x ∈ (s.threads[j]?).bind Thread.hand, x.ref = e.ref → e.fence < x.fence

/-- A thread puts an entry only while no other thread holds an older one of the reference. -/
def PutsOldest (s : State) : Action → Prop
  | .thread i ch => ∀ e ∈ putting s (.thread i ch), OldestInHand s i e
  | _ => True

instance (s : State) (e : Entry) : Decidable (Popped s e) := by
  unfold Popped
  infer_instance

instance (s : State) : DecidablePred (AppendsIncreasing s)
  | .append _ => inferInstanceAs (Decidable (∀ x ∈ s.appended, _))
  | .call _ | .thread _ _ | .load _ | .lookup _ _ | .readRow _ _ _ | .purge _ | .purgePending _
  | .purgeRows _ _ | .cancel | .restart => isTrue trivial

instance (s : State) (a : Action) : Decidable (OneProcess s a) := by
  unfold OneProcess
  infer_instance

instance (s : State) (i : ℕ) (e : Entry) : Decidable (OldestInHand s i e) := by
  unfold OldestInHand
  infer_instance

instance (s : State) : DecidablePred (PutsOldest s)
  | .thread _ _ => inferInstanceAs (Decidable (∀ e ∈ _, OldestInHand _ _ e))
  | .append _ | .call _ | .load _ | .lookup _ _ | .readRow _ _ _ | .purge _ | .purgePending _
  | .purgeRows _ _ | .cancel | .restart => isTrue trivial

/-! ## What has been taken from the ring -/

/-- The ring is a suffix of what was appended.  What precedes it is in the pending set's history or
in the hands of a thread, and what is in hand is newer than what was put. -/
structure Taken (s : State) (taken : List Entry) : Prop where
  ordered : s.appended.Pairwise fun x y => x.ref = y.ref → x.fence < y.fence
  split : s.appended = taken ++ s.ring
  hands : ∀ th ∈ s.threads, ∀ e ∈ th.hand, e ∈ taken ∧
    ∀ x ∈ s.arrived, x.ref = e.ref → x.fence < e.fence
  arrived : ∀ e ∈ s.arrived, e ∈ taken ∧ (decode e).isOk
  placed : ∀ e ∈ taken, (decode e).isOk → e ∈ s.arrived ∨ ∃ th ∈ s.threads, th.hand = some e

namespace Taken

variable {s : State} {taken : List Entry}

theorem lt_unread (inv : Taken s taken) {e x : Entry} (he : e ∈ taken) (hx : x ∈ s.ring)
    (ref : e.ref = x.ref) : e.fence < x.fence := by
  have ordered := inv.ordered
  rw [inv.split] at ordered
  exact (List.pairwise_append.1 ordered).2.2 e he x hx ref

/-- The thread at `i` moves on with nothing newly in hand. -/
theorem move (inv : Taken s taken) {i : ℕ} {th th' : Thread} (at_i : s.threads[i]? = some th)
    (free : th'.hand = none) (kept : ∀ e ∈ th.hand, ¬(decode e).isOk) {p : Pending} {t : Table} :
    Taken { s with pending := p, table := t, threads := s.threads.set i th' } taken where
  ordered := inv.ordered
  split := inv.split
  hands := forall_mem_set inv.hands (by simp [free])
  arrived := inv.arrived
  placed e he good := by
    rcases inv.placed e he good with h | h
    · exact .inl h
    · exact .inr (exists_hand_set at_i h fun hand => absurd good (kept e hand))

theorem pop (inv : Taken s taken) {i count : ℕ} {c : Caller} {payload : Entry} {rest : List Entry}
    (at_i : s.threads[i]? = some ⟨c, .popping count⟩) (unread : s.ring = payload :: rest) :
    Taken { s with ring := rest, threads := s.threads.set i ⟨c, .popped count payload⟩ }
      (taken ++ [payload]) where
  ordered := inv.ordered
  split := by simp [inv.split, unread]
  hands := by
    apply forall_mem_set
    · intro th hth e he
      exact ⟨List.mem_append_left _ (inv.hands th hth e he).1, (inv.hands th hth e he).2⟩
    · intro e he
      obtain rfl : payload = e := Option.some.inj he
      refine ⟨List.mem_append_right _ (List.mem_singleton_self _), fun x hx ref => ?_⟩
      exact inv.lt_unread (inv.arrived x hx).1 (unread ▸ List.mem_cons_self) ref
  arrived e he := ⟨List.mem_append_left _ (inv.arrived e he).1, (inv.arrived e he).2⟩
  placed e he good := by
    rcases List.mem_append.1 he with he | he
    · exact (inv.placed e he good).imp_right fun h =>
        exists_hand_set at_i h (by simp [Thread.hand])
    · rw [List.mem_singleton.1 he]
      exact .inr ⟨_, List.mem_set (List.getElem?_eq_some_iff.1 at_i).1 _, rfl⟩

theorem put (inv : Taken s taken) {i count : ℕ} {c c' : Caller} {pc' : Pc} {e : Entry}
    (at_i : s.threads[i]? = some ⟨c, .popped count e⟩) (good : (decode e).isOk)
    (free : (Thread.mk c' pc').hand = none) (oldest : PutsOldest s (.thread i .go)) :
    Taken
      { s with
        pending := s.pending.put e, arrived := s.arrived ++ [e]
        threads := s.threads.set i ⟨c', pc'⟩ } taken where
  ordered := inv.ordered
  split := inv.split
  hands := by
    intro th hth x hx
    obtain ⟨j, hj⟩ := List.mem_iff_getElem?.1 hth
    by_cases same : i = j
    · subst same
      obtain rfl : ⟨c', pc'⟩ = th := by
        have lt := (List.getElem?_eq_some_iff.1 at_i).1
        simpa [lt] using hj
      rw [free] at hx
      cases hx
    · -- another thread's entry of the reference is newer, as the condition says
      rw [List.getElem?_set_ne same] at hj
      obtain ⟨mem, after⟩ := inv.hands th (List.mem_of_getElem? hj) x hx
      refine ⟨mem, forall_mem_snoc (fun y hy ref => after y hy ref) fun ref => ?_⟩
      have hand : x ∈ (s.threads[j]?).bind Thread.hand := by rwa [hj]
      exact oldest e (putting_of_popped at_i) j (List.getElem?_eq_some_iff.1 hj).1 (Ne.symm same)
        x hand ref.symm
  arrived := forall_mem_snoc inv.arrived
    ⟨(inv.hands _ (List.mem_of_getElem? at_i) e rfl).1, good⟩
  placed x hx hgood := by
    rcases inv.placed x hx hgood with h | h
    · exact .inl (List.mem_append_left _ h)
    · by_cases same : x = e
      · exact .inl (by simp [same])
      · refine .inr (exists_hand_set at_i h fun hand => ?_)
        exact absurd (Option.some.inj hand).symm same

theorem thread (inv : Taken s taken) {srv : Server} {i : ℕ} {ch : Choice} {th th' : Thread}
    {sh' : Shared} (at_i : s.threads[i]? = some th) (oldest : PutsOldest s (.thread i ch))
    (does : ThreadStep srv s.toShared th ch sh' th') :
    ∃ taken', Taken { s with toShared := sh', threads := s.threads.set i th' } taken' := by
  cases does with
  | move from_plain to_plain =>
    exact ⟨_, inv.move at_i (to_plain _).1 (by simp [(from_plain _).1])⟩
  | pop unread => exact ⟨_, inv.pop at_i unread⟩
  | reject bad => exact ⟨_, inv.move at_i rfl (by simpa [Thread.hand] using bad)⟩
  | put good to_plain =>
    exact ⟨_, inv.put at_i (by rw [good]; rfl) (to_plain _).1 oldest⟩
  | collect _ => exact ⟨_, inv.move at_i rfl (by simp [Thread.hand])⟩
  | upsert => exact ⟨_, inv.move at_i rfl (by simp [Thread.hand])⟩
  | fail _ => exact ⟨_, inv.move at_i rfl (by simp [Thread.hand])⟩
  | drop => exact ⟨_, inv.move at_i rfl (by simp [Thread.hand])⟩

theorem append (inv : Taken s taken) {e : Entry} (forward : AppendsIncreasing s (.append e)) :
    Taken { s with ring := s.ring ++ [encode e], appended := s.appended ++ [encode e] } taken where
  ordered := by
    refine List.pairwise_append.2 ⟨inv.ordered, List.pairwise_singleton _ _, ?_⟩
    intro x hx y hy
    rw [List.mem_singleton.1 hy]
    exact forward x hx
  split := by simp [inv.split]
  hands := inv.hands
  arrived := inv.arrived
  placed := inv.placed

/-- With no entry in hand, the popped entries are those that were put. -/
theorem popped_iff (inv : Taken s taken) (free : ∀ th ∈ s.threads, th.hand = none) (e : Entry) :
    Popped s e ↔ e ∈ s.arrived := by
  constructor
  · rintro ⟨mem, read, good⟩
    rw [inv.split] at mem
    rcases inv.placed e ((List.mem_append.1 mem).resolve_right read) good with h | ⟨th, hth, hand⟩
    · exact h
    · rw [free th hth] at hand
      cases hand
  · intro h
    obtain ⟨mem, good⟩ := inv.arrived e h
    refine ⟨inv.split ▸ List.mem_append_left _ mem, fun unread => ?_, good⟩
    exact (inv.lt_unread mem unread rfl).false

end Taken

theorem taken_step {srv : Server} {s u : State} {a : Action} {taken : List Entry}
    (one : OneProcess s a) (oldest : PutsOldest s a) (inv : Taken s taken)
    (h : srv.step s a = some u) : ∃ taken', Taken u taken' := by
  obtain ⟨forward, noPurge, noRestart⟩ := one
  cases Server.step_spec h with
  | thread at_i does => exact inv.thread at_i oldest does
  | append => exact ⟨taken, inv.append forward⟩
  | call plain =>
    refine ⟨taken, inv.ordered, inv.split, forall_mem_snoc inv.hands ?_, inv.arrived, ?_⟩
    · simp [(plain _).1]
    · intro e he good
      exact (inv.placed e he good).imp_right fun ⟨th, hth, hand⟩ =>
        ⟨th, List.mem_append_left _ hth, hand⟩
  | quiet _ => exact ⟨taken, inv.ordered, inv.split, inv.hands, inv.arrived, inv.placed⟩
  | purgePending => exact noPurge.elim
  | purgeRows => exact noPurge.elim
  | restart => exact absurd rfl noRestart

/-- What is put comes after everything of its reference that was put. -/
theorem Taken.inOrder {s : State} {taken : List Entry} (inv : Taken s taken) (a : Action) :
    InOrder s a := by
  intro e he x hx ref
  unfold putting at he
  split at he
  · obtain ⟨th, hth, hand⟩ := Option.bind_eq_some_iff.1 he
    exact (inv.hands th (List.mem_of_getElem? hth) e hand).2 x hx ref
  · cases he

/-! ## Nothing that was put is lost -/

theorem kept_step {srv : Server} {s u : State} {a : Action} (noPurge : NoPurge a)
    (inOrder : InOrder s a) (grown : SequenceGrown s a)
    (arrivals : Arrivals s.toShared s.threads)
    (upserted : ∀ th ∈ s.threads, Upserted s.toShared th)
    (inv : ∀ e ∈ s.arrived, PendingOrStored s e) (h : srv.step s a = some u) :
    ∀ e ∈ u.arrived, PendingOrStored u e := by
  cases Server.step_spec h with
  | @thread i ch th th' sh' at_i does =>
    have rows := fun (e : Entry) he => does.dominates (k := e.ref.rowKey) (f := e.fence) he
    cases does with
    | @put _ _ x _ good to_plain =>
      have after := inOrder x (putting_of_popped at_i)
      refine forall_mem_snoc (fun e he => (inv e he).imp_left (held_put fun e' he' => ?_)) ?_
      · exact (after e' (arrivals.newest _ e' he').1 (s.pending.ref_of_get he')).le
      · exact .inl ⟨x, s.pending.get_put_self x, le_rfl⟩
    | @drop _ _ x rest =>
      have flushed := upserted _ (List.mem_of_getElem? at_i) x (by simp [Thread.upserted])
      intro e he
      rcases inv e he with pending | stored
      · exact held_drop (grown x (dropping_of_upserted at_i)) flushed pending
      · exact .inr stored
    | upsert => exact fun e he => (inv e he).imp_right (rows e)
    | fail _ => exact fun e he => (inv e he).imp_right (rows e)
    | move _ _ | pop _ | reject _ | collect _ => exact inv
  | append | call _ | quiet _ => exact inv
  | purgePending => exact noPurge.elim
  | purgeRows => exact noPurge.elim
  | restart => simp

/-- Take any run of one process in which a thread puts an entry only while no other holds an older
one of its reference, and every drop meets the flushed entry or one with a larger owner sequence.
Whenever all popped entries have been put, the pending entry of a reference is its newest popped
one, and the newest popped entry of a reference is pending or dominated by its row. -/
theorem newest_popped_kept (srv : Server) (t : Table) {as : List Action} {s : State}
    (run : Run srv.step (fun s a => OneProcess s a ∧ PutsOldest s a ∧ SequenceGrown s a)
      (.start t) as s)
    (free : ∀ th ∈ s.threads, th.hand = none) :
    (∀ ref, ∀ e ∈ s.pending.get ref, NewestPopped s e) ∧
      ∀ e, NewestPopped s e →
        s.pending.get e.ref = some e ∨ s.table.Dominates e.ref.rowKey e.fence := by
  obtain ⟨⟨taken, order⟩, arrivals, -, kept⟩ := run.invariant
    (fun s => (∃ taken, Taken s taken) ∧ Arrivals s.toShared s.threads ∧
      (∀ th ∈ s.threads, Upserted s.toShared th) ∧ ∀ e ∈ s.arrived, PendingOrStored s e)
    ⟨⟨[], by constructor <;> simp [State.start, runThread, Thread.hand]⟩,
      by constructor <;> simp [State.start, runThread, Thread.batch],
      by simp [State.start, runThread, Upserted, Thread.upserted], by simp [State.start]⟩
    fun s a u ⟨⟨taken, order⟩, arrivals, upserted, kept⟩ ⟨one, oldest, grown⟩ enabled =>
      ⟨taken_step one oldest order enabled,
        arrivals_step (order.inOrder a) one.2.1 arrivals enabled,
        upserted_step one.2.1 upserted enabled,
        kept_step one.2.1 (order.inOrder a) grown arrivals upserted kept enabled⟩
  have popped := order.popped_iff free
  constructor
  · intro ref e he
    obtain ⟨mem, newest⟩ := arrivals.newest ref e he
    refine ⟨(popped e).2 mem, fun x hx same => newest x ((popped x).1 hx) ?_⟩
    rw [same, s.pending.ref_of_get he]
  · rintro e ⟨he, newest⟩
    rcases kept e ((popped e).1 he) with ⟨e', he', le⟩ | stored
    · -- the pending entry is not newer either, so it is `e` itself
      have arrived := (arrivals.newest e.ref e' he').1
      have ref := s.pending.ref_of_get he'
      have fence := le_antisymm le (newest e' ((popped e').2 arrived) ref)
      rw [arrivals.eq_of_fence_eq ((popped e).1 he) arrived ref.symm fence, ref]
      exact .inl he'
    · exact .inr stored

/-- `Run` and a `DrainPartition` call each pop one of two entries of a key, and `first` puts before
`second`. -/
def twoDrainersRun (first second : ℕ) : List Action :=
  [.append (setEntry 1 1 1 [97]), .append (setEntry 1 1 2 [97]), .call (.drainPartition [100] 0 1),
    .thread 0 .go, .thread 1 .go, .thread 0 .go, .thread 1 .go, .thread first .go,
    .thread second .go]

theorem newest_popped_kept_by_two :
    ∃ s, Run plainServer.step (fun s a => OneProcess s a ∧ PutsOldest s a ∧ SequenceGrown s a)
        (.start .empty) (twoDrainersRun 0 1) s ∧ NewestPopped s (setEntry 1 1 2 [97]) := by
  obtain ⟨s, run, free, pending⟩ := Run.exists_of_exec plainServer.step
    (fun s a => OneProcess s a ∧ PutsOldest s a ∧ SequenceGrown s a) (.start .empty)
    (twoDrainersRun 0 1)
    (fun s => (∀ th ∈ s.threads, th.hand = none) ∧
      s.pending.get (setEntry 1 1 2 [97]).ref = some (setEntry 1 1 2 [97]))
    (by decide +kernel)
  exact ⟨s, run, (newest_popped_kept plainServer .empty run free).1 _ _ pending⟩

/-- The call, which popped second, puts first: when everything popped has been put, the pending set
holds the older entry and the newer one is nowhere. -/
theorem drainers_put_out_of_order :
    ∃ s, Run plainServer.step (fun s a => OneProcess s a ∧ SequenceGrown s a) (.start .empty)
        (twoDrainersRun 1 0) s ∧
      (∀ th ∈ s.threads, th.hand = none) ∧
      s.pending.get (setEntry 1 1 2 [97]).ref = some (setEntry 1 1 1 [97]) ∧
      Popped s (setEntry 1 1 2 [97]) ∧
      (setEntry 1 1 1 [97]).fence < (setEntry 1 1 2 [97]).fence ∧
      ¬s.table.Dominates (setEntry 1 1 2 [97]).ref.rowKey (setEntry 1 1 2 [97]).fence := by
  apply Run.exists_of_exec
  decide +kernel

end OlricStack.Sidecar
