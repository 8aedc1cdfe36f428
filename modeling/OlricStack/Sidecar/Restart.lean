import OlricStack.Sidecar.Flush

/-!
# Stopping and starting again

The ring outlives the process, the pending set does not, and `Pop` moves the head before the entry
is anywhere else.  An entry is safe along a run in which the process stops only with everything it
has taken in the table (`appended_held`); stopping after a failed flush loses what was popped
(`failed_flush_loses_entry`).
-/

namespace OlricStack.Sidecar

open Transition

/-- The entry is unread in the ring, in the hands of a thread or in the pending set of the live
process (itself or a newer one of its reference), or dominated by its row. -/
def Held (s : State) (e : Entry) : Prop :=
  e ∈ s.ring ∨ (∃ th ∈ s.threads, th.hand = some e) ∨
    (∃ e' ∈ s.pending.get e.ref, e.fence ≤ e'.fence) ∨ s.table.Dominates e.ref.rowKey e.fence

/-- Everything the process has taken from the ring is dominated by its row. -/
def AllFlushed (s : State) : Prop :=
  (∀ e ∈ s.pending.entries.toList, s.table.Dominates e.ref.rowKey e.fence) ∧
    ∀ th ∈ s.threads, ∀ e ∈ th.hand, s.table.Dominates e.ref.rowKey e.fence

/-- The process stops only when everything it has taken is flushed. -/
def StopsFlushed (s : State) (a : Action) : Prop := a = .restart → AllFlushed s

/-- A put does not replace a newer entry, and what is put decodes. -/
def PutsForward (s : State) (a : Action) : Prop :=
  ∀ e ∈ putting s a, (decode e).isOk ∧ ∀ e' ∈ s.pending.get e.ref, e'.fence ≤ e.fence

/-- The steps along which no entry is lost. -/
def Lossless (s : State) (a : Action) : Prop :=
  NoPurge a ∧ PutsForward s a ∧ SequenceGrown s a ∧ StopsFlushed s a

instance (s : State) (e : Entry) : Decidable (Held s e) := by
  unfold Held
  infer_instance

instance (s : State) : Decidable (AllFlushed s) := by
  unfold AllFlushed
  infer_instance

instance (s : State) (a : Action) : Decidable (StopsFlushed s a) := by
  unfold StopsFlushed
  infer_instance

instance (s : State) (a : Action) : Decidable (PutsForward s a) := by
  unfold PutsForward
  infer_instance

instance (s : State) (a : Action) : Decidable (Lossless s a) := by
  unfold Lossless
  infer_instance

/-! ## Steps -/

/-- What is in the hands of some thread stays there unless that thread lets go of it. -/
theorem exists_hand_set {threads : List Thread} {i : ℕ} {th th' : Thread} {e : Entry}
    (at_i : threads[i]? = some th) (held : ∃ t ∈ threads, t.hand = some e)
    (keep : th.hand = some e → th'.hand = some e) :
    ∃ t ∈ threads.set i th', t.hand = some e := by
  obtain ⟨t, ht, hand⟩ := held
  obtain ⟨j, hj⟩ := List.mem_iff_getElem?.1 ht
  obtain ⟨hlt, -⟩ := List.getElem?_eq_some_iff.1 at_i
  by_cases hij : j = i
  · subst hij
    obtain rfl := Option.some.inj (at_i.symm.trans hj)
    exact ⟨th', List.mem_iff_getElem?.2 ⟨j, by simp [hlt]⟩, keep hand⟩
  · exact ⟨t, List.mem_iff_getElem?.2 ⟨j, by rw [List.getElem?_set_ne (Ne.symm hij), hj]⟩, hand⟩

/-- A drop that removes only the flushed entry leaves every entry with a newer one in the pending
set or dominated. -/
theorem held_drop {sh : Shared} {x e : Entry}
    (grown : ∀ e' ∈ sh.pending.get x.ref, e' = x ∨ x.ownerSeq < e'.ownerSeq)
    (flushed : sh.table.Dominates x.ref.rowKey x.fence)
    (held : ∃ e' ∈ sh.pending.get e.ref, e.fence ≤ e'.fence) :
    (∃ e' ∈ (sh.pending.drop x.ref x.ownerSeq).get e.ref, e.fence ≤ e'.fence) ∨
      sh.table.Dominates e.ref.rowKey e.fence := by
  obtain ⟨e', he', le⟩ := held
  by_cases ref : e.ref = x.ref
  · rw [ref] at he' ⊢
    rcases grown e' he' with rfl | lt
    · exact .inr (flushed.mono le)
    · refine .inl ⟨e', ?_, le⟩
      rw [Option.mem_def, sh.pending.get_drop_self]
      exact Option.filter_eq_some_iff.2 ⟨he', by simpa using lt⟩
  · refine .inl ⟨e', ?_, le⟩
    rwa [Option.mem_def, sh.pending.get_drop_of_ne ref]

/-- A put in order leaves every entry with a newer one in the pending set. -/
theorem held_put {p : Pending} {x e : Entry} (forward : ∀ e' ∈ p.get x.ref, e'.fence ≤ x.fence)
    (held : ∃ e' ∈ p.get e.ref, e.fence ≤ e'.fence) :
    ∃ e' ∈ (p.put x).get e.ref, e.fence ≤ e'.fence := by
  obtain ⟨e', he', le⟩ := held
  by_cases ref : e.ref = x.ref
  · rw [ref] at he' ⊢
    exact ⟨x, p.get_put_self x, le.trans (forward e' he')⟩
  · refine ⟨e', ?_, le⟩
    rwa [Option.mem_def, p.get_put_of_ne ref]

theorem Held.thread {srv : Server} {s : State} {i : ℕ} {ch : Choice} {th th' : Thread}
    {sh' : Shared} {e : Entry} (held : Held s e) (at_i : s.threads[i]? = some th)
    (upserted : Upserted s.toShared th) (forward : PutsForward s (.thread i ch))
    (grown : SequenceGrown s (.thread i ch)) (does : ThreadStep srv s.toShared th ch sh' th') :
    Held { s with toShared := sh', threads := s.threads.set i th' } e := by
  have row := fun hd => does.dominates (k := e.ref.rowKey) (f := e.fence) hd
  cases does with
  | move from_plain _ =>
    exact held.imp_right <| .imp_left fun h => exists_hand_set at_i h (by simp [(from_plain _).1])
  | @pop _ _ payload rest unread =>
    rcases held with h | h | h
    · rw [unread] at h
      rcases List.mem_cons.1 h with rfl | h
      · exact .inr (.inl ⟨_, List.mem_set (List.getElem?_eq_some_iff.1 at_i).1 _, rfl⟩)
      · exact .inl h
    · exact .inr (.inl (exists_hand_set at_i h (by simp [Thread.hand])))
    · exact .inr (.inr h)
  | reject bad => exact absurd (forward _ (putting_of_popped at_i)).1 bad
  | @put _ _ x _ good to_plain =>
    rcases held with h | h | h | h
    · exact .inl h
    · by_cases same : e = x
      · subst same
        exact .inr (.inr (.inl ⟨e, s.pending.get_put_self e, le_rfl⟩))
      · refine .inr (.inl (exists_hand_set at_i h fun hand => ?_))
        exact absurd (Option.some.inj hand).symm same
    · exact .inr (.inr (.inl (held_put (forward x (putting_of_popped at_i)).2 h)))
    · exact .inr (.inr (.inr h))
  | collect _ =>
    exact held.imp_right <| .imp_left fun h => exists_hand_set at_i h (by simp [Thread.hand])
  | upsert =>
    exact held.imp_right <| .imp (fun h => exists_hand_set at_i h (by simp [Thread.hand]))
      (.imp_right row)
  | fail _ =>
    exact held.imp_right <| .imp (fun h => exists_hand_set at_i h (by simp [Thread.hand]))
      (.imp_right row)
  | @drop _ _ x rest =>
    have flushed := upserted x (by simp [Thread.upserted])
    rcases held with h | h | h | h
    · exact .inl h
    · exact .inr (.inl (exists_hand_set at_i h (by simp [Thread.hand])))
    · exact .inr (.inr (held_drop (grown x (dropping_of_upserted at_i)) flushed h))
    · exact .inr (.inr (.inr h))

theorem held_step {srv : Server} {s u : State} {a : Action} (ok : Lossless s a)
    (upserted : ∀ th ∈ s.threads, Upserted s.toShared th) (inv : ∀ e ∈ s.appended, Held s e)
    (h : srv.step s a = some u) : ∀ e ∈ u.appended, Held u e := by
  obtain ⟨noPurge, forward, grown, stops⟩ := ok
  cases Server.step_spec h with
  | thread at_i does =>
    intro e he
    exact (inv e he).thread at_i (upserted _ (List.mem_of_getElem? at_i)) forward grown does
  | append =>
    intro e he
    rcases List.mem_append.1 he with he | he
    · exact (inv e he).imp_left (List.mem_append_left _)
    · exact .inl (List.mem_append_right _ he)
  | call plain =>
    intro e he
    exact (inv e he).imp_right <| .imp_left fun ⟨th, hth, hand⟩ =>
      ⟨th, List.mem_append_left _ hth, hand⟩
  | quiet _ => exact inv
  | purgePending => exact noPurge.elim
  | purgeRows => exact noPurge.elim
  | restart =>
    obtain ⟨pending, hands⟩ := stops rfl
    intro e he
    rcases inv e he with h | ⟨th, hth, hand⟩ | ⟨e', he', le⟩ | h
    · exact .inl h
    · exact .inr (.inr (.inr (hands th hth e hand)))
    · have ref := s.pending.ref_of_get he'
      have row := pending e' (s.pending.mem_iff_get.2 (by rwa [ref]))
      rw [ref] at row
      exact .inr (.inr (.inr (row.mono le)))
    · exact .inr (.inr (.inr h))

theorem held_of_run {srv : Server} {t : Table} {as : List Action} {s : State}
    (run : Run srv.step Lossless (.start t) as s) : ∀ e ∈ s.appended, Held s e := by
  have inv : (∀ th ∈ s.threads, Upserted s.toShared th) ∧ ∀ e ∈ s.appended, Held s e := by
    apply run.invariant fun s => (∀ th ∈ s.threads, Upserted s.toShared th) ∧
      ∀ e ∈ s.appended, Held s e
    · simp [State.start, runThread, Upserted, Thread.upserted]
    · intro t a u inv ok enabled
      exact ⟨upserted_step ok.1 inv.1 enabled, held_step ok inv.1 inv.2 enabled⟩
  exact inv.2

/-- With no entry in hand, a held entry is in the ring, in the pending set or in the table. -/
theorem Held.settled {s : State} {e : Entry} (held : Held s e)
    (free : ∀ th ∈ s.threads, th.hand = none) : e ∈ s.ring ∨
      (∃ e' ∈ s.pending.get e.ref, e.fence ≤ e'.fence) ∨
        s.table.Dominates e.ref.rowKey e.fence := by
  rcases held with unread | ⟨th, hth, hand⟩ | settled
  · exact .inl unread
  · rw [free th hth] at hand
    cases hand
  · exact .inr settled

/-- In every state of a run along which the process stops only with everything flushed, puts do not
go back, popped payloads decode and drops remove only what was flushed, every entry that was
appended is still held; and while no thread is between its pop and its put, that is in the ring, in
the pending set or in the table. -/
theorem appended_held (srv : Server) (t : Table) {as : List Action} {s : State}
    (run : Run srv.step Lossless (.start t) as s) :
    (∀ e ∈ s.appended, Held s e) ∧
      ((∀ th ∈ s.threads, th.hand = none) → ∀ e ∈ s.appended, e ∈ s.ring ∨
        (∃ e' ∈ s.pending.get e.ref, e.fence ≤ e'.fence) ∨
          s.table.Dominates e.ref.rowKey e.fence) :=
  ⟨held_of_run run, fun free e he => (held_of_run run e he).settled free⟩

/-- An entry goes through the pending set into the table, and then the process is replaced. -/
def flushedRestartRun : List Action :=
  let e := setEntry 1 1 1 [97]
  [.append e, .thread 0 .go, .thread 0 .go, .thread 0 .go, .thread 0 .go, .thread 0 .go,
    .thread 0 (.order [e]), .thread 0 .go, .thread 0 .go, .restart, .append (setEntry 1 1 2 [97]),
    .thread 0 .go, .thread 0 .go]

theorem appended_held_after_restart :
    ∃ s, Run plainServer.step Lossless (.start .empty) flushedRestartRun s ∧
      Held s (setEntry 1 1 1 [97]) ∧ Held s (setEntry 1 1 2 [97]) := by
  obtain ⟨s, run, appended⟩ := Run.exists_of_exec plainServer.step Lossless (.start .empty)
    flushedRestartRun (fun s => s.appended = [setEntry 1 1 1 [97], setEntry 1 1 2 [97]])
    (by decide +kernel)
  have held := (appended_held plainServer .empty run).1
  rw [appended] at held
  exact ⟨s, run, held _ (by simp), held _ (by simp)⟩

/-- An entry is popped, its flush fails, `Run` returns the error and a new process starts. -/
def failedFlushRun : List Action :=
  let e := setEntry 1 1 1 [97]
  [.append e, .thread 0 .go, .thread 0 .go, .thread 0 .go, .thread 0 .go, .thread 0 .go,
    .thread 0 (.order [e]), .thread 0 (.fail []), .restart]

/-- After a failed flush and a restart the entry is nowhere. -/
theorem failed_flush_loses_entry :
    ∃ s, Run plainServer.step (fun s a => NoPurge a ∧ PutsForward s a ∧ SequenceGrown s a)
        (.start .empty) failedFlushRun s ∧
      setEntry 1 1 1 [97] ∈ s.appended ∧ ¬Held s (setEntry 1 1 1 [97]) := by
  apply Run.exists_of_exec
  decide +kernel

end OlricStack.Sidecar
