import Mathlib.Data.List.Pairwise
import OlricStack.Lib.Run
import OlricStack.Sidecar.Server

/-!
# Flush rounds

A flush copies entries from the pending set, upserts them and drops them, while other threads go on
putting entries.  `drop` tells a newer entry from the flushed one by its owner sequence alone, so it
removes an entry it did not flush exactly when the counter has not grown since the copy was taken
(`drops_only_flushed_iff`), which an epoch change makes happen (`drop_removes_unflushed`).
-/

namespace OlricStack.Sidecar

open Transition

/-! ## What an action is about to do -/

/-- The entry an action puts into the pending set. -/
def putting (s : State) : Action → Option Entry
  | .thread i .go => (s.threads[i]?).bind Thread.hand
  | _ => none

/-- The flushed entry an action drops from the pending set. -/
def dropping (s : State) : Action → Option Entry
  | .thread i .go => (s.threads[i]?).bind fun th => th.upserted.head?
  | _ => none

theorem putting_of_popped {s : State} {i : ℕ} {c : Caller} {count : ℕ} {e : Entry}
    (at_i : s.threads[i]? = some ⟨c, .popped count e⟩) : putting s (.thread i .go) = some e := by
  simp [putting, at_i, Thread.hand]

theorem dropping_of_upserted {s : State} {i : ℕ} {c : Caller} {drained : ℕ} {e : Entry}
    {rest : List Entry} (at_i : s.threads[i]? = some ⟨c, .upserted drained (e :: rest)⟩) :
    dropping s (.thread i .go) = some e := by
  simp [dropping, at_i, Thread.upserted]

/-- The action does not purge. -/
def NoPurge : Action → Prop
  | .purgePending _ => False
  | .purgeRows _ _ => False
  | _ => True

instance : DecidablePred NoPurge
  | .purgePending _ | .purgeRows _ _ => isFalse id
  | .append _ | .call _ | .thread _ _ | .load _ | .lookup _ _ | .readRow _ _ _ | .purge _ | .cancel
  | .restart => isTrue trivial

/-- Entries of one reference arrive in the pending set with strictly increasing fences. -/
def InOrder (s : State) (a : Action) : Prop :=
  ∀ e ∈ putting s a, ∀ x ∈ s.arrived, x.ref = e.ref → x.fence < e.fence

/-- An entry that `drop` removes is not newer than the flushed one, and the table holds an equal or
newer fence. -/
def DropsOnlyFlushed (s : State) (a : Action) : Prop :=
  ∀ e ∈ dropping s a, ∀ e' ∈ s.pending.entries.toList,
    e' ∉ (s.pending.drop e.ref e.ownerSeq).entries.toList →
      e'.fence ≤ e.fence ∧ s.table.Dominates e'.ref.rowKey e'.fence

/-- Where an action drops `e`, an entry that has taken its place in the pending set since the copy
has a larger owner sequence. -/
def SequenceGrown (s : State) (a : Action) : Prop :=
  ∀ e ∈ dropping s a, ∀ e' ∈ s.pending.get e.ref, e' = e ∨ e.ownerSeq < e'.ownerSeq

instance (s : State) (a : Action) : Decidable (InOrder s a) := by
  unfold InOrder
  infer_instance

instance (s : State) (a : Action) : Decidable (SequenceGrown s a) := by
  unfold SequenceGrown
  infer_instance

/-! ## Upserted entries are in the table -/

section Dominated

variable {srv : Server} {sh sh' : Shared} {th th' : Thread} {ch : Choice}

theorem ThreadStep.dominates (h : ThreadStep srv sh th ch sh' th') {k : RowKey} {f : Fence}
    (hd : sh.table.Dominates k f) : sh'.table.Dominates k f := by
  cases h with
  | upsert => exact hd.upsertAll _ _
  | fail _ => exact hd.upsertAll _ _
  | _ => exact hd

/-- What a thread has upserted, the table dominates. -/
def Upserted (sh : Shared) (th : Thread) : Prop :=
  ∀ e ∈ th.upserted, sh.table.Dominates e.ref.rowKey e.fence

theorem Upserted.of_plain {c : Caller} {pc : Pc} (plain : pc.Plain) : Upserted sh ⟨c, pc⟩ := by
  simp [Upserted, (plain c).2.2]

theorem ThreadStep.upserted (h : ThreadStep srv sh th ch sh' th') (hu : Upserted sh th) :
    Upserted sh' th' := by
  cases h with
  | move _ to_plain => exact .of_plain to_plain
  | pop _ => simp [Upserted, Thread.upserted]
  | reject _ => simp [Upserted, Thread.upserted]
  | put _ to_plain => exact .of_plain to_plain
  | collect _ => simp [Upserted, Thread.upserted]
  | upsert =>
    intro e he
    exact Table.dominates_upsertAll _ _ (List.mem_map_of_mem he)
  | fail _ => simp [Upserted, Thread.upserted]
  | drop => exact fun e he => hu e (List.mem_cons_of_mem _ he)

end Dominated

theorem upserted_step {srv : Server} {s u : State} {a : Action} (noPurge : NoPurge a)
    (inv : ∀ th ∈ s.threads, Upserted s.toShared th) (h : srv.step s a = some u) :
    ∀ th ∈ u.threads, Upserted u.toShared th := by
  cases Server.step_spec h with
  | thread at_i does =>
    refine forall_mem_set (fun th hth e he => does.dominates (inv th hth e he)) ?_
    exact does.upserted (inv _ (List.mem_of_getElem? at_i))
  | append => exact inv
  | call plain => exact forall_mem_snoc inv (.of_plain plain)
  | quiet _ => exact inv
  | purgePending => exact noPurge.elim
  | purgeRows => exact noPurge.elim
  | restart => simp [Upserted, runThread, Thread.upserted]

/-! ## The pending set holds what arrived last -/

/-- The pending entry of a reference is the newest that arrived, and the copies that threads hold
are of entries that arrived. -/
structure Arrivals (sh : Shared) (threads : List Thread) : Prop where
  increasing : sh.arrived.Pairwise fun x y => x.ref = y.ref → x.fence < y.fence
  newest : ∀ ref, ∀ e ∈ sh.pending.get ref, e ∈ sh.arrived ∧
    ∀ x ∈ sh.arrived, x.ref = ref → x.fence ≤ e.fence
  copied : ∀ th ∈ threads, ∀ e ∈ th.batch, e ∈ sh.arrived

namespace Arrivals

variable {sh : Shared} {threads : List Thread}

theorem eq_of_fence_eq (inv : Arrivals sh threads) {x y : Entry} (hx : x ∈ sh.arrived)
    (hy : y ∈ sh.arrived) (ref : x.ref = y.ref) (fence : x.fence = y.fence) : x = y := by
  by_contra hne
  have apart : sh.arrived.Pairwise fun x y => x.ref = y.ref → x.fence ≠ y.fence :=
    inv.increasing.imp fun h r => (h r).ne
  have symm : Std.Symm fun x y : Entry => x.ref = y.ref → x.fence ≠ y.fence :=
    ⟨fun x y h r e => h r.symm e.symm⟩
  exact apart.forall hx hy hne ref fence

theorem put (inv : Arrivals sh threads) {e : Entry}
    (inOrder : ∀ x ∈ sh.arrived, x.ref = e.ref → x.fence < e.fence) :
    Arrivals { sh with pending := sh.pending.put e, arrived := sh.arrived ++ [e] } threads where
  increasing := by
    refine List.pairwise_append.2 ⟨inv.increasing, List.pairwise_singleton _ _, ?_⟩
    intro x hx y hy
    rw [List.mem_singleton.1 hy]
    exact inOrder x hx
  newest := by
    intro ref e' he'
    by_cases hr : ref = e.ref
    · subst hr
      obtain rfl : e = e' := by simpa using he'
      refine ⟨by simp, fun x hx xref => ?_⟩
      rcases List.mem_append.1 hx with hx | hx
      · exact (inOrder x hx xref).le
      · rw [List.mem_singleton.1 hx]
    · rw [Option.mem_def, sh.pending.get_put_of_ne hr] at he'
      obtain ⟨mem, le⟩ := inv.newest ref e' he'
      refine ⟨List.mem_append_left _ mem, fun x hx xref => ?_⟩
      rcases List.mem_append.1 hx with hx | hx
      · exact le x hx xref
      · rw [List.mem_singleton.1 hx] at xref
        exact absurd xref.symm hr
  copied th hth e he := List.mem_append_left _ (inv.copied th hth e he)

/-- Removing entries from the pending set keeps the invariant. -/
theorem shrink (inv : Arrivals sh threads) {p : Pending}
    (sub : ∀ ref e, p.get ref = some e → sh.pending.get ref = some e) :
    Arrivals { sh with pending := p } threads where
  increasing := inv.increasing
  newest ref e he := inv.newest ref e (sub ref e he)
  copied := inv.copied

/-- One thread's copies change. -/
theorem move (inv : Arrivals sh threads) {i : ℕ} {th : Thread}
    (copied : ∀ e ∈ th.batch, e ∈ sh.arrived) : Arrivals sh (threads.set i th) where
  increasing := inv.increasing
  newest := inv.newest
  copied := forall_mem_set inv.copied copied

end Arrivals

theorem Arrivals.thread {srv : Server} {s : State} {i : ℕ} {ch : Choice} {th th' : Thread}
    {sh' : Shared} (inv : Arrivals s.toShared s.threads) (at_i : s.threads[i]? = some th)
    (inOrder : InOrder s (.thread i ch)) (does : ThreadStep srv s.toShared th ch sh' th') :
    Arrivals sh' (s.threads.set i th') := by
  have copied := inv.copied th (List.mem_of_getElem? at_i)
  cases does with
  | move _ to_plain => exact inv.move (by simp [(to_plain _).2.1])
  | pop _ =>
    exact ⟨inv.increasing, inv.newest, forall_mem_set inv.copied (by simp [Thread.batch])⟩
  | reject _ => exact inv.move (by simp [Thread.batch])
  | @put _ _ e _ good to_plain =>
    exact (inv.put (inOrder e (putting_of_popped at_i))).move (by simp [(to_plain _).2.1])
  | collect copied' => exact inv.move fun e he => (inv.newest e.ref e (copied' e he)).1
  | upsert => exact ⟨inv.increasing, inv.newest, forall_mem_set inv.copied copied⟩
  | fail _ =>
    exact ⟨inv.increasing, inv.newest, forall_mem_set inv.copied (by simp [Thread.batch])⟩
  | drop =>
    refine (inv.shrink fun ref e => s.pending.get_of_get_drop).move fun e he => ?_
    exact copied e (List.mem_cons_of_mem _ he)

theorem arrivals_step {srv : Server} {s u : State} {a : Action} (inOrder : InOrder s a)
    (noPurge : NoPurge a) (inv : Arrivals s.toShared s.threads) (h : srv.step s a = some u) :
    Arrivals u.toShared u.threads := by
  cases Server.step_spec h with
  | thread at_i does => exact inv.thread at_i inOrder does
  | append => exact ⟨inv.increasing, inv.newest, inv.copied⟩
  | call plain =>
    exact ⟨inv.increasing, inv.newest, forall_mem_snoc inv.copied (by simp [(plain _).2.1])⟩
  | quiet _ => exact inv
  | purgePending => exact noPurge.elim
  | purgeRows => exact noPurge.elim
  | restart => exact ⟨by simp, by simp, by simp [runThread, Thread.batch]⟩

/-! ## Drops -/

theorem exists_thread_of_dropping {s : State} {a : Action} {e : Entry} (h : e ∈ dropping s a) :
    ∃ th ∈ s.threads, e ∈ th.upserted := by
  unfold dropping at h
  split at h
  · obtain ⟨th, hth, he⟩ := Option.bind_eq_some_iff.1 h
    exact ⟨th, List.mem_of_getElem? hth, List.mem_of_mem_head? he⟩
  · cases h

theorem Thread.upserted_subset_batch (th : Thread) : th.upserted ⊆ th.batch := by
  obtain ⟨c, pc⟩ := th
  cases pc <;> simp [Thread.upserted, Thread.batch]

theorem dropsOnlyFlushed_iff {s : State} {a : Action} (arrivals : Arrivals s.toShared s.threads)
    (upserted : ∀ th ∈ s.threads, Upserted s.toShared th) :
    DropsOnlyFlushed s a ↔ SequenceGrown s a := by
  constructor
  · intro safe e he e' he'
    by_cases grown : e.ownerSeq < e'.ownerSeq
    · exact .inr grown
    · -- the pending entry goes, so it is not newer than the flushed one, nor older
      obtain ⟨th, hth, hmem⟩ := exists_thread_of_dropping he
      have ref := s.pending.ref_of_get he'
      have held : e' ∈ s.pending.entries.toList := by
        rw [s.pending.mem_iff_get, ref]
        exact he'
      have removed := (s.pending.not_mem_drop_iff held).2 ⟨ref, not_lt.1 grown⟩
      have arrived := arrivals.copied th hth e (th.upserted_subset_batch hmem)
      obtain ⟨arrived', newest⟩ := arrivals.newest e.ref e' he'
      have fence := le_antisymm (safe e he e' held removed).1 (newest e arrived rfl)
      exact .inl (arrivals.eq_of_fence_eq arrived' arrived ref fence)
  · intro grown e he e' held removed
    obtain ⟨th, hth, hmem⟩ := exists_thread_of_dropping he
    obtain ⟨ref, le⟩ := (s.pending.not_mem_drop_iff held).1 removed
    have found : e' ∈ s.pending.get e.ref := by
      rw [← ref]
      exact s.pending.mem_iff_get.1 held
    obtain rfl := (grown e he e' found).resolve_right (not_lt.2 le)
    exact ⟨le_rfl, upserted th hth e' hmem⟩

/-- Take any run in which entries of one reference arrive with increasing fences.  Every drop in it
removes only what was flushed if and only if at every drop the pending entry is the flushed one or
has a larger owner sequence. -/
theorem drops_only_flushed_iff (srv : Server) (t : Table) (as : List Action) (s : State) :
    Run srv.step (fun s a => (InOrder s a ∧ NoPurge a) ∧ DropsOnlyFlushed s a) (.start t) as s ↔
      Run srv.step (fun s a => (InOrder s a ∧ NoPurge a) ∧ SequenceGrown s a) (.start t) as s := by
  apply Run.congr fun s => Arrivals s.toShared s.threads ∧
    ∀ th ∈ s.threads, Upserted s.toShared th
  · refine ⟨⟨by simp [State.start], by simp [State.start], ?_⟩, ?_⟩
    · simp [State.start, runThread, Thread.batch]
    · simp [State.start, runThread, Upserted, Thread.upserted]
  · intro t a u inv allowed enabled
    obtain ⟨⟨inOrder, noPurge⟩, -⟩ := allowed
    exact ⟨arrivals_step inOrder noPurge inv.1 enabled, upserted_step noPurge inv.2 enabled⟩
  · intro t a inv _
    rw [dropsOnlyFlushed_iff inv.1 inv.2]

/-- A server on MySQL with the default limits: batches of 256, nothing else bounded. -/
def plainServer : Server := newServer (newMySQLBackend .mysql 256) ⟨256, 0, 0⟩

/-- A set of the key `k` with a given fence. -/
def setEntry (generation epoch ownerSeq : ℤ) (writerID : Bytes) : Entry where
  version := currentVersion
  op := .set
  dmap := [100]
  key := [107]
  hkey := 7
  encodedEntry := [1]
  ttl := 0
  timestamp := 0
  generation := generation
  epoch := epoch
  ownerSeq := ownerSeq
  writerID := writerID
  updatedAtUnixNano := 0

/-- `Run` copies and upserts the entry of epoch 1 with sequence 5; before it drops it, a
`DrainPartition` call puts the entry of epoch 2, whose sequence starts again at 1. -/
def epochChangeRun : List Action :=
  let old := setEntry 1 1 5 [97]
  [.append old, .thread 0 .go, .thread 0 .go, .thread 0 .go, .thread 0 .go, .thread 0 .go,
    .thread 0 (.order [old]), .thread 0 .go,
    .append (setEntry 1 2 1 [97]), .call (.drainPartition [100] 0 1),
    .thread 1 .go, .thread 1 .go, .thread 1 .go, .thread 0 .go]

/-- The drop of the flushed entry removes the newer one: it is in neither the ring, nor the pending
set, nor the table. -/
theorem drop_removes_unflushed :
    ∃ s, Run plainServer.step (fun s a => InOrder s a ∧ NoPurge a) (.start .empty)
        epochChangeRun s ∧
      setEntry 1 2 1 [97] ∈ s.arrived ∧ s.ring = [] ∧
      s.pending.get (setEntry 1 2 1 [97]).ref = none ∧
      ¬s.table.Dominates (setEntry 1 2 1 [97]).ref.rowKey (setEntry 1 2 1 [97]).fence := by
  apply Run.exists_of_exec
  decide +kernel

end OlricStack.Sidecar
