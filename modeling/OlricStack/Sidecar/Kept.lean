import OlricStack.Sidecar.Accounting
import OlricStack.Sidecar.Calls

/-!
# What a purge leaves

`Join` on a new generation purges the pending set and then the rows.  The record of an entry below
the generation is returned afterwards, whatever is drained and flushed, if `Join` did not purge and
it was so before; or if the delete of the rows failed and the row already stood in the table, with
nothing of it pending, in the ring or in a flush to hide or replace it (`join_keeps_entry_iff`).
-/

namespace OlricStack.Sidecar

open Transition

/-- The entry's record is returned now and after any further draining and flushing. -/
def KeepsEntry (srv : Server) (s : State) (e : Entry) (nowMs nowMs' : ℤ) : Prop :=
  ∀ as u, Run srv.step DrainsOrFlushes s as u →
    srv.loadFromMySQL u e.ref nowMs nowMs' = .found (recordFromEntry e)

/-! ## The record of purge calls -/

/-- Draining and flushing does not look at the record of purge calls. -/
theorem step_purges {srv : Server} {s u : State} {a : Action} (ok : DrainsOrFlushes s a)
    (h : srv.step s a = some u) (purges : List Purge) :
    srv.step { s with purges := purges } a = some { u with purges := purges } := by
  cases a with
  | call c =>
    obtain ⟨pc, entry, rfl⟩ := Option.map_eq_some_iff.1 h
    simp only [Server.step, entry, Option.map_some]
  | thread i ch =>
    obtain ⟨th, at_i, h⟩ := Option.bind_eq_some_iff.1 h
    obtain ⟨⟨sh, th'⟩, does, h⟩ := Option.bind_eq_some_iff.1 h
    cases h
    simp only [Server.step, at_i, does, bind, Option.bind_some, pure]
  | cancel =>
    cases h
    rfl
  | _ => exact ok.elim

theorem keepsEntry_purges_iff (srv : Server) (s : State) (purges : List Purge) (e : Entry)
    (nowMs nowMs' : ℤ) :
    KeepsEntry srv { s with purges := purges } e nowMs nowMs' ↔
      KeepsEntry srv s e nowMs nowMs' := by
  have moved {s u : State} {as : List Action} (run : Run srv.step DrainsOrFlushes s as u)
      (purges : List Purge) :
      Run srv.step DrainsOrFlushes { s with purges := purges } as { u with purges := purges } :=
    run.map (fun s => { s with purges := purges }) fun t a u ok h => ⟨ok, step_purges ok h purges⟩
  constructor
  · intro keeps as u run
    have returned := keeps as _ (moved run purges)
    exact returned
  · intro keeps as u run
    have returned := keeps as _ (moved run s.purges)
    exact returned

/-! ## When only the pending set is purged -/

/-- The record is returned at both readings of the clock. -/
structure Live (r : EntryRecord) (nowMs nowMs' : ℤ) : Prop where
  tombstone : r.tombstone = false
  backend : recordExpiredAt r nowMs = false
  server : recordExpiredAt r nowMs' = false

/-- In the pending set the entry `x` does not hide the record of `e`, and a flush of it does not
replace the row. -/
def Harmless (e x : Entry) : Prop :=
  x.ref.rowKey = e.ref.rowKey →
    x.fence ≤ e.fence ∧ (x.ref = e.ref → recordFromEntry x = recordFromEntry e)

/-- The entries a thread has copied from the pending set and not yet upserted. -/
def Thread.collected (th : Thread) : List Entry :=
  match th.pc with
  | .collected _ entries => entries
  | _ => []

/-- The row is the record of `e`, and nothing in the ring, in the hand of a drainer or in the batch
of a flush will hide or replace it. -/
structure RowStands (e : Entry) (s : State) : Prop where
  row : s.table.row e.ref.rowKey = some (recordFromEntry e)
  ring : ∀ x ∈ s.ring, (decode x).isOk → Harmless e x
  hands : ∀ th ∈ s.threads, ∀ x ∈ th.hand, (decode x).isOk → Harmless e x
  batches : ∀ th ∈ s.threads, ∀ x ∈ th.collected, x.ref.rowKey = e.ref.rowKey → x.fence ≤ e.fence

theorem Thread.collected_subset_batch (th : Thread) : th.collected ⊆ th.batch := by
  obtain ⟨c, pc⟩ := th
  cases pc <;> simp [collected, batch]

/-! ### Answers -/

theorem respond_eq_found_iff {nowMs : ℤ} {r r' : EntryRecord} :
    respond nowMs r = .found r' ↔
      r = r' ∧ r.tombstone = false ∧ recordExpiredAt r nowMs = false := by
  unfold respond
  cases r.tombstone <;> cases recordExpiredAt r nowMs <;> simp

theorem readRow_eq_found_iff {b : MySQLBackend} {t : Table} {ref : EntryRef} {nowMs nowMs' : ℤ}
    {r : EntryRecord} : readRow b t ref nowMs nowMs' = .found r ↔
      t.row ref.rowKey = some r ∧ Live r nowMs nowMs' := by
  unfold readRow MySQLBackend.loadFromMySQL
  cases t.row ref.rowKey with
  | none => simp
  | some stored =>
    constructor
    · intro found
      split at found
      · cases found
      · next checked =>
        obtain ⟨rfl, alive, later⟩ := respond_eq_found_iff.1 found
        dsimp only at checked
        split_ifs at checked with dead expired
        obtain rfl := Option.some.inj checked
        exact ⟨rfl, alive, by simpa using expired, later⟩
    · rintro ⟨same, live⟩
      obtain rfl := Option.some.inj same
      simp [live.tombstone, live.backend, live.server, respond]

theorem load_of_get_none {srv : Server} {s : State} {ref : EntryRef}
    (none : s.pending.get ref = none) (nowMs nowMs' : ℤ) :
    srv.loadFromMySQL s ref nowMs nowMs' = readRow srv.backend s.table ref nowMs nowMs' := by
  simp [Server.loadFromMySQL, lookup, none]

theorem load_of_get_some {srv : Server} {s : State} {ref : EntryRef} {x : Entry}
    (pending : s.pending.get ref = some x) (nowMs nowMs' : ℤ) :
    srv.loadFromMySQL s ref nowMs nowMs' = respond nowMs (recordFromEntry x) := by
  simp [Server.loadFromMySQL, lookup, pending]

/-! ### The row stands -/

/-- Records that are not newer leave the row. -/
theorem row_upsertAll_of_le {d : Dialect} {t : Table} {l : List EntryRecord} {k : RowKey}
    {r : EntryRecord} (row : t.row k = some r)
    (old : ∀ n ∈ l, n.rowKey = k → n.fence ≤ r.fence) : (t.upsertAll d l).row k = some r := by
  induction l generalizing t with
  | nil => exact row
  | cons n l ih =>
    refine ih ?_ fun m mem => old m (List.mem_cons_of_mem _ mem)
    by_cases same : k = n.rowKey
    · subst same
      have le := not_lt.2 (old n List.mem_cons_self rfl)
      rw [t.row_upsert_self d n, row]
      cases d with
      | mysql => simp only [Table.upsertedRow, onConflict_mysql, if_neg le]
      | standard => simp only [Table.upsertedRow, onConflict_standard, if_neg le]
    · rw [t.row_upsert_of_ne d same, row]

/-- Draining and flushing leaves the row, and what comes into the pending set does not hide it. -/
structure Undrained (e : Entry) (s : State) : Prop extends RowStands e s where
  pending : ∀ ref x, s.pending.get ref = some x → Harmless e x

namespace Undrained

variable {e : Entry} {s : State}

theorem move (h : Undrained e s) {i : ℕ} {th : Thread}
    (hand : ∀ x ∈ th.hand, (decode x).isOk → Harmless e x)
    (batch : ∀ x ∈ th.collected, x.ref.rowKey = e.ref.rowKey → x.fence ≤ e.fence) :
    Undrained e { s with threads := s.threads.set i th } :=
  ⟨⟨h.row, h.ring, forall_mem_set h.hands hand, forall_mem_set h.batches batch⟩, h.pending⟩

/-- A thread goes to a place where it carries nothing to be put or upserted. -/
theorem move_plain (h : Undrained e s) {i : ℕ} {th : Thread} (hand : th.hand = none)
    (collected : th.collected = []) : Undrained e { s with threads := s.threads.set i th } :=
  h.move (by simp [hand]) (by simp [collected])

theorem setPending (h : Undrained e s) {p : Pending} (arrived : List Entry)
    (pending : ∀ ref x, p.get ref = some x → Harmless e x) :
    Undrained e { s with pending := p, arrived := arrived } :=
  ⟨⟨h.row, h.ring, h.hands, h.batches⟩, pending⟩

theorem upsert (h : Undrained e s) {d : Dialect} {l : List EntryRecord}
    (old : ∀ n ∈ l, n.rowKey = e.ref.rowKey → n.fence ≤ e.fence) :
    Undrained e { s with table := s.table.upsertAll d l } :=
  ⟨⟨row_upsertAll_of_le h.row old, h.ring, h.hands, h.batches⟩, h.pending⟩

theorem thread {srv : Server} {i : ℕ} {ch : Choice} {th th' : Thread} {sh' : Shared}
    (h : Undrained e s) (at_i : s.threads[i]? = some th)
    (does : ThreadStep srv s.toShared th ch sh' th') :
    Undrained e { s with toShared := sh', threads := s.threads.set i th' } := by
  have mem := List.mem_of_getElem? at_i
  have hand := h.hands th mem
  have batch := h.batches th mem
  have plain {c : Caller} {pc : Pc} (to_plain : pc.Plain) : (Thread.mk c pc).collected = [] :=
    List.subset_nil.1 ((to_plain c).2.1 ▸ Thread.collected_subset_batch ⟨c, pc⟩)
  cases does with
  | move _ to_plain => exact h.move_plain (to_plain _).1 (plain to_plain)
  | @pop _ _ payload rest unread =>
    have ring := h.ring
    rw [unread] at ring
    have shorter : Undrained e { s with ring := rest } :=
      ⟨⟨h.row, fun x mem => ring x (List.mem_cons_of_mem _ mem), h.hands, h.batches⟩, h.pending⟩
    refine shorter.move (fun x mem => ?_) (by simp [Thread.collected])
    cases mem
    exact ring payload List.mem_cons_self
  | reject _ => exact h.move_plain rfl rfl
  | @put _ _ x _ good to_plain =>
    refine (h.setPending (s.arrived ++ [x]) fun ref y found => ?_).move_plain (to_plain _).1
      (plain to_plain)
    by_cases same : ref = x.ref
    · subst same
      obtain rfl : x = y := by simpa using found
      exact hand x rfl (by rw [good]; rfl)
    · rw [s.pending.get_put_of_ne same] at found
      exact h.pending ref y found
  | collect copied =>
    exact h.move (by simp [Thread.hand]) fun x mem row => (h.pending x.ref x (copied x mem) row).1
  | @upsert _ _ entries =>
    refine (h.upsert fun n mem row => ?_).move_plain rfl rfl
    obtain ⟨x, copied, rfl⟩ := List.mem_map.1 mem
    exact batch x copied row
  | fail sub =>
    refine (h.upsert fun n mem row => ?_).move_plain rfl rfl
    obtain ⟨x, copied, rfl⟩ := List.mem_map.1 (sub.subset mem)
    exact batch x copied row
  | drop =>
    exact (h.setPending s.arrived fun ref x found =>
      h.pending ref x (s.pending.get_of_get_drop found)).move_plain rfl rfl

theorem step {srv : Server} {u : State} {a : Action} (h : Undrained e s)
    (ok : DrainsOrFlushes s a) (enabled : srv.step s a = some u) : Undrained e u := by
  cases Server.step_spec enabled with
  | thread at_i does => exact h.thread at_i does
  | append => exact ok.elim
  | @call c pc plain =>
    have batch := Thread.collected_subset_batch ⟨c, pc⟩
    rw [(plain c).2.1] at batch
    exact ⟨⟨h.row, h.ring, forall_mem_snoc h.hands (by simp [(plain c).1]),
      forall_mem_snoc h.batches (by simp [List.subset_nil.1 batch])⟩, h.pending⟩
  | quiet _ => exact ⟨⟨h.row, h.ring, h.hands, h.batches⟩, h.pending⟩
  | purgePending => exact ok.elim
  | purgeRows => exact ok.elim
  | restart => exact ok.elim

/-- The record is returned from the pending set or from the row. -/
theorem load (h : Undrained e s) {nowMs nowMs' : ℤ} (live : Live (recordFromEntry e) nowMs nowMs')
    (srv : Server) : srv.loadFromMySQL s e.ref nowMs nowMs' = .found (recordFromEntry e) := by
  cases found : s.pending.get e.ref with
  | none =>
    rw [load_of_get_none found]
    exact readRow_eq_found_iff.2 ⟨h.row, live⟩
  | some x =>
    have ref := s.pending.ref_of_get found
    rw [load_of_get_some found, (h.pending e.ref x found (congrArg _ ref)).2 ref]
    exact respond_eq_found_iff.2 ⟨rfl, live.tombstone, live.backend⟩

theorem keepsEntry (h : Undrained e s) {nowMs nowMs' : ℤ}
    (live : Live (recordFromEntry e) nowMs nowMs') (srv : Server) :
    KeepsEntry srv s e nowMs nowMs' := fun _ _ run =>
  (run.invariant (Undrained e) h fun _ _ _ inv ok enabled => inv.step ok enabled).load live srv

end Undrained

/-! ### What would be drained or flushed -/

/-- The state after a `Shutdown` call that flushes all that is pending. -/
def State.flushed (srv : Server) (s : State) : State :=
  s.withLast
    { s.toShared with
      table := s.table.upsertAll srv.backend.dialect (s.pending.entries.toList.map recordFromEntry)
      pending := s.pending.dropAll s.pending.entries.toList } ⟨.shutdown, .returned true⟩

/-- A call that goes on alone only drains and flushes. -/
theorem drains_of_call {srv : Server} {s u : State} {c : Caller} {i : ℕ} {choices : List Choice}
    (run : Run srv.step anyAction s (.call c :: choices.map (.thread i)) u) :
    Run srv.step DrainsOrFlushes s (.call c :: choices.map (.thread i)) u := by
  refine run.of_actions fun t a mem => ?_
  rcases List.mem_cons.1 mem with rfl | mem
  · trivial
  · obtain ⟨ch, -, rfl⟩ := List.mem_map.1 mem
    trivial

theorem run_flushed (srv : Server) (s : State) :
    ∃ as, Run srv.step DrainsOrFlushes s as (s.flushed srv) := by
  have called : srv.shutdown s.toShared s.pending.entries.toList .succeeds =
      some (.ok (), (s.flushed srv).toShared) := by
    have whole : s.pending.Snapshot s.pending.entries.toList := List.Perm.refl _
    rw [Server.shutdown, Server.flushOnce, if_pos whole, Server.flushEntries]
    split_ifs with empty
    · simp only [State.flushed, State.withLast, empty]
      rfl
    · rw [MySQLBackend.upsertEntries_eq]
      rfl
  obtain ⟨choices, run⟩ := shutdown_alone called
  exact ⟨_, drains_of_call run⟩

theorem get_flushed (srv : Server) (s : State) (ref : EntryRef) :
    (s.flushed srv).pending.get ref = none := by
  change (s.pending.dropAll _).get ref = none
  have copied : ∀ e ∈ s.pending.entries.toList, ∀ e' ∈ s.pending.get e.ref, e' = e :=
    fun e mem e' found => Option.some.inj (found.symm.trans (s.pending.mem_iff_get.1 mem))
  rw [Pending.get_dropAll copied]
  split_ifs with dropped
  · rfl
  · by_contra held
    obtain ⟨x, found⟩ := Option.ne_none_iff_exists'.1 held
    have ref := s.pending.ref_of_get found
    exact dropped ⟨x, s.pending.mem_iff_get.2 (ref ▸ found), ref⟩

theorem counted_dropAll {p : Pending} (counted : p.Counted) (l : List Entry) :
    (p.dropAll l).Counted := by
  induction l generalizing p with
  | nil => exact counted
  | cons e l ih =>
    rw [Pending.dropAll_cons, p.drop_eq]
    exact ih (counted.remove _)

/-- There is room in a pending set that has been flushed. -/
theorem room_flushed (srv : Server) {s : State} (counted : s.pending.Counted) :
    srv.pendingFull (s.flushed srv).pending = false := by
  have empty : (s.flushed srv).pending.entries.toList = [] := by
    refine List.eq_nil_iff_forall_not_mem.2 fun x mem => ?_
    rw [Pending.mem_iff_get, get_flushed] at mem
    cases mem
  have bytes : (s.flushed srv).pending.bytes = 0 := by
    have total : (s.flushed srv).pending.Counted := counted_dropAll counted _
    rw [total, Pending.total, empty]
    rfl
  refine Bool.eq_false_iff.2 fun full => ?_
  simp only [Server.pendingFull, Pending.size, empty, bytes, List.length_nil, Bool.or_eq_true,
    Bool.and_eq_true, decide_eq_true_eq] at full
  rcases full with ⟨positive, reached⟩ | ⟨positive, reached⟩
  · omega
  · exact UInt64.not_lt.2 reached positive

/-- Where there is room, a `DrainPartition` call pops the next payload. -/
theorem run_pop {srv : Server} {s : State} (room : srv.pendingFull s.pending = false)
    {payload : Entry} {rest : List Entry} (unread : s.ring = payload :: rest) :
    ∃ as, Run srv.step DrainsOrFlushes s as
      (s.withLast { s.toShared with ring := rest }
        ⟨.drainPartition [] 0 1, .popped 0 payload⟩) := by
  let c : Caller := .drainPartition [] 0 1
  have looks : Alone srv s s.toShared ⟨c, .draining 0⟩ s.toShared ⟨c, .popping 0⟩ :=
    .one .go (by simp [Server.stepThread, room])
  have pops : Alone srv s s.toShared ⟨c, .popping 0⟩ { s.toShared with ring := rest }
      ⟨c, .popped 0 payload⟩ := .one .go (by simp [Server.stepThread, unread])
  obtain ⟨choices, run⟩ := looks.trans pops
  have called : srv.step s (.call c) = some (s.withLast s.toShared ⟨c, .draining 0⟩) := rfl
  exact ⟨_, drains_of_call (run.cons _ trivial called)⟩

/-- Every payload in the ring may come into the hand of a drainer. -/
theorem run_popped {srv : Server} {s : State} (room : srv.pendingFull s.pending = false)
    {before after : List Entry} {x : Entry} (unread : s.ring = before ++ x :: after) :
    ∃ as u, Run srv.step DrainsOrFlushes s as u ∧ ∃ th ∈ u.threads, th.hand = some x := by
  induction before generalizing s with
  | nil =>
    obtain ⟨as, run⟩ := run_pop room unread
    exact ⟨as, _, run, _, List.mem_append_right _ (List.mem_singleton_self _), rfl⟩
  | cons y before ih =>
    obtain ⟨as, run⟩ := run_pop room unread
    let next : State := s.withLast { s.toShared with ring := before ++ x :: after }
      ⟨.drainPartition [] 0 1, .popped 0 y⟩
    obtain ⟨bs, u, run', held⟩ := ih (s := next) room rfl
    exact ⟨as ++ bs, u, run.append run', held⟩

namespace KeepsEntry

variable {srv : Server} {s u : State} {e x : Entry} {nowMs nowMs' : ℤ}

theorem run (keeps : KeepsEntry srv s e nowMs nowMs') {as : List Action}
    (r : Run srv.step DrainsOrFlushes s as u) : KeepsEntry srv u e nowMs nowMs' :=
  fun _ _ r' => keeps _ _ (r.append r')

theorem thread (keeps : KeepsEntry srv s e nowMs nowMs') {i : ℕ} {ch : Choice}
    (enabled : srv.step s (.thread i ch) = some u) : KeepsEntry srv u e nowMs nowMs' :=
  have allowed : DrainsOrFlushes s (.thread i ch) := trivial
  keeps.run (.cons _ allowed enabled .nil)

/-- With nothing pending the row is the record. -/
theorem row (keeps : KeepsEntry srv s e nowMs nowMs') (none : s.pending.get e.ref = none) :
    s.table.row e.ref.rowKey = some (recordFromEntry e) ∧
      Live (recordFromEntry e) nowMs nowMs' := by
  have found := keeps [] s .nil
  rw [load_of_get_none none] at found
  exact readRow_eq_found_iff.1 found

/-- Nothing that the row dominates is newer: the row is the record once all is flushed. -/
theorem fence_le_of_dominates (keeps : KeepsEntry srv s e nowMs nowMs') {f : Fence}
    (dominates : s.table.Dominates e.ref.rowKey f) : f ≤ e.fence := by
  obtain ⟨as, run⟩ := run_flushed srv s
  obtain ⟨r, stored, le⟩ := dominates.upsertAll srv.backend.dialect
    (s.pending.entries.toList.map recordFromEntry)
  have row := ((keeps.run run).row (get_flushed srv s e.ref)).1
  obtain rfl := Option.some.inj (stored.symm.trans row)
  exact le

/-- What is pending would be flushed. -/
theorem fence_le_of_pending (keeps : KeepsEntry srv s e nowMs nowMs')
    (pending : x ∈ s.pending.entries.toList) (row : x.ref.rowKey = e.ref.rowKey) :
    x.fence ≤ e.fence := by
  obtain ⟨as, run⟩ := run_flushed srv s
  have flushed := s.table.dominates_upsertAll srv.backend.dialect
    (List.mem_map_of_mem (f := recordFromEntry) pending)
  exact (keeps.run run).fence_le_of_dominates (row ▸ flushed)

/-- What a flush has copied would be upserted. -/
theorem fence_le_of_collected (keeps : KeepsEntry srv s e nowMs nowMs') {th : Thread}
    (mem : th ∈ s.threads) (collected : x ∈ th.collected) (row : x.ref.rowKey = e.ref.rowKey) :
    x.fence ≤ e.fence := by
  obtain ⟨i, at_i⟩ := List.mem_iff_getElem?.1 mem
  obtain ⟨c, pc⟩ := th
  cases pc with
  | collected drained entries =>
    have upserts : srv.step s (.thread i .go) = some { s with
        table := srv.backend.upsertEntries s.table (entries.map recordFromEntry)
        threads := s.threads.set i ⟨c, .upserted drained entries⟩ } := by
      simp [Server.step, at_i, Server.stepThread]
    have flushed := s.table.dominates_upsertAll srv.backend.dialect
      (List.mem_map_of_mem (f := recordFromEntry) collected)
    refine (keeps.thread upserts).fence_le_of_dominates ?_
    dsimp only
    rw [MySQLBackend.upsertEntries_eq]
    exact row ▸ flushed
  | _ => cases collected

/-- What a drainer has in its hand would be put. -/
theorem harmless_of_hand (keeps : KeepsEntry srv s e nowMs nowMs') {th : Thread}
    (mem : th ∈ s.threads) (hand : th.hand = some x) (good : (decode x).isOk) : Harmless e x := by
  obtain ⟨i, at_i⟩ := List.mem_iff_getElem?.1 mem
  obtain ⟨c, pc⟩ := th
  cases pc with
  | popped count payload =>
    obtain rfl := Option.some.inj hand
    cases decoded : decode payload with
    | error err =>
      rw [decoded] at good
      cases good
    | ok y =>
      obtain rfl := eq_of_decode decoded
      have puts : srv.step s (.thread i .go) = some { s with
          pending := s.pending.put y
          arrived := s.arrived ++ [y]
          threads := s.threads.set i ⟨c, if count + 1 ≥ srv.batchSize then .drained (count + 1)
            else .draining (count + 1)⟩ } := by
        simp [Server.step, at_i, Server.stepThread, decoded]
      have kept := keeps.thread puts
      refine fun row => ⟨kept.fence_le_of_pending ?_ row, fun ref => ?_⟩
      · exact (s.pending.put y).mem_iff_get.2 (s.pending.get_put_self y)
      · have found := kept [] _ .nil
        rw [← ref, load_of_get_some (s.pending.get_put_self y)] at found
        exact (respond_eq_found_iff.1 found).1
  | _ => cases hand

/-- What is in the ring would be popped and put, once there is room. -/
theorem harmless_of_ring (keeps : KeepsEntry srv s e nowMs nowMs') (counted : s.pending.Counted)
    (unread : x ∈ s.ring) (good : (decode x).isOk) : Harmless e x := by
  obtain ⟨before, after, ring⟩ := List.append_of_mem unread
  obtain ⟨as, flush⟩ := run_flushed srv s
  have still : (s.flushed srv).ring = before ++ x :: after := ring
  obtain ⟨bs, u, drain, th, mem, hand⟩ := run_popped (room_flushed srv counted) still
  exact ((keeps.run flush).run drain).harmless_of_hand mem hand good

end KeepsEntry

/-- An entry below the generation, when the pending entries are purged and the rows are not: its
record is returned, now and after any further draining and flushing, if and only if it is live, it
stands in the table, and nothing of its row is left in the pending set. -/
theorem keepsEntry_purged_iff (srv : Server) {s : State} (counted : s.pending.Counted) {g : ℤ}
    {e : Entry} (below : e.generation < g) (nowMs nowMs' : ℤ) :
    KeepsEntry srv { s with pending := (s.pending.purgeBelow g).2 } e nowMs nowMs' ↔
      Live (recordFromEntry e) nowMs nowMs' ∧ RowStands e s ∧
        ∀ x ∈ s.pending.entries.toList, x.ref.rowKey = e.ref.rowKey → x.generation < g := by
  have kept {ref : EntryRef} {x : Entry} : (s.pending.purgeBelow g).2.get ref = some x ↔
      s.pending.get ref = some x ∧ g ≤ x.generation := by
    rw [s.pending.get_purgeBelow, Option.filter_eq_some_iff]
    simp
  constructor
  · intro keeps
    have newer {x : Entry} (pending : x ∈ s.pending.entries.toList)
        (row : x.ref.rowKey = e.ref.rowKey) : x.generation < g := by
      by_contra high
      have left := kept.2 ⟨s.pending.mem_iff_get.1 pending, not_lt.1 high⟩
      have le := keeps.fence_le_of_pending (Pending.mem_iff_get _ |>.2 left) row
      exact high ((Fence.generation_le_of_le le).trans_lt below)
    have none : (s.pending.purgeBelow g).2.get e.ref = none := by
      by_contra found
      obtain ⟨x, found⟩ := Option.ne_none_iff_exists'.1 found
      have ref := Pending.ref_of_get _ found
      obtain ⟨pending, high⟩ := kept.1 found
      have mem := s.pending.mem_iff_get.2 (ref ▸ pending)
      exact absurd (newer mem (congrArg _ ref)) (not_lt.2 high)
    obtain ⟨row, live⟩ := keeps.row none
    have purged : (s.pending.purgeBelow g).2.Counted := counted.remove _
    exact ⟨live, ⟨row, fun x mem good => keeps.harmless_of_ring purged mem good,
      fun th mem x hand good => keeps.harmless_of_hand mem hand good,
      fun th mem x batch row => keeps.fence_le_of_collected mem batch row⟩, fun x => newer⟩
  · rintro ⟨live, stands, purged⟩
    have undrained : Undrained e { s with pending := (s.pending.purgeBelow g).2 } := by
      refine ⟨⟨stands.row, stands.ring, stands.hands, stands.batches⟩, fun ref x found row => ?_⟩
      obtain ⟨pending, high⟩ := kept.1 found
      have mem := s.pending.mem_iff_get.2 (s.pending.ref_of_get pending ▸ pending)
      exact absurd (purged x mem row) (not_lt.2 high)
    exact undrained.keepsEntry live srv

/-! ## What `Join` keeps -/

/-- Take any state and any entry below generation `g`.  After `Join` on an envelope of `g` the
entry's record is returned, now and after any further draining and flushing, if and only if it was
before and `Join` did not purge, or the delete of the rows failed and the record is returned without
the pending entries below `g`: with a counter that is right, if and only if it is live and stands in
the table, with nothing of its row pending at `g` or above and nothing in the ring, in the hand of a
drainer or in a flush that hides or replaces it.  So a purge that succeeds loses the entry in every
state. -/
theorem join_keeps_entry_iff (srv : Server) (j : Joiner) (c : PurgeCall) {s u : State} {g : ℤ}
    {e : Entry} (below : e.generation < g)
    (run : Run srv.step anyAction s (j.join g s.purges.length c).2 u) (nowMs nowMs' : ℤ) :
    (KeepsEntry srv u e nowMs nowMs' ↔
      (¬j.Purges g ∨ c = .notSent) ∧ KeepsEntry srv s e nowMs nowMs' ∨
        (j.Purges g ∧ c = .rowsFailed) ∧
          KeepsEntry srv { s with pending := (s.pending.purgeBelow g).2 } e nowMs nowMs') ∧
    (s.pending.Counted →
      (KeepsEntry srv { s with pending := (s.pending.purgeBelow g).2 } e nowMs nowMs' ↔
        Live (recordFromEntry e) nowMs nowMs' ∧ RowStands e s ∧
          ∀ x ∈ s.pending.entries.toList, x.ref.rowKey = e.ref.rowKey → x.generation < g)) := by
  refine ⟨?_, fun counted => keepsEntry_purged_iff srv counted below nowMs nowMs'⟩
  cases joined_of_run run with
  | @spared c purges none =>
    rw [keepsEntry_purges_iff]
    constructor
    · intro keeps
      exact .inl ⟨none, keeps⟩
    · rintro (⟨-, keeps⟩ | ⟨⟨some, rfl⟩, -⟩)
      · exact keeps
      · exact absurd some (none.resolve_right (by simp))
  | @rowsFailed purges some =>
    rw [keepsEntry_purges_iff srv { s with pending := (s.pending.purgeBelow g).2 } purges]
    simp [some]
  | purged some =>
    constructor
    · intro keeps
      have purged := (joined_of_run run).purgedBelow some e.ref.rowKey
      exact absurd (keeps [] _ .nil) (purged.load_ne below nowMs nowMs')
    · rintro (⟨none, -⟩ | ⟨⟨-, failed⟩, -⟩)
      · exact absurd some (none.resolve_right (by simp))
      · cases failed

/-- A node that joined generation 1 last. -/
def joinerAtOne : Joiner := ⟨true, 1⟩

/-- The only write, of generation 1, is flushed and dropped from the pending set. -/
def flushedRun : List Action :=
  let e := setEntry 1 1 1 [97]
  [.append e, .thread 0 .go, .thread 0 .go, .thread 0 .go, .thread 0 .go, .thread 0 .go,
    .thread 0 (.order [e]), .thread 0 .go, .thread 0 .go]

/-- It is lost when the purge succeeds, and kept when the delete of the rows fails. -/
theorem join_loses_flushed_write :
    ∃ s u v, Run plainServer.step anyAction (.start .empty) flushedRun s ∧
      Run plainServer.step anyAction s (joinerAtOne.join 2 s.purges.length .purged).2 u ∧
      ¬KeepsEntry plainServer u (setEntry 1 1 1 [97]) 5 6 ∧
      Run plainServer.step anyAction s (joinerAtOne.join 2 s.purges.length .rowsFailed).2 v ∧
      KeepsEntry plainServer v (setEntry 1 1 1 [97]) 5 6 := by
  obtain ⟨s, run, ⟨next, next'⟩, row, ring, threads, pending, bytes⟩ :=
    Run.exists_of_exec plainServer.step anyAction (.start .empty) flushedRun
      (fun s => ((exec plainServer.step anyAction s
          (joinerAtOne.join 2 s.purges.length .purged).2).any (fun _ => True) = true ∧
        (exec plainServer.step anyAction s
          (joinerAtOne.join 2 s.purges.length .rowsFailed).2).any (fun _ => True) = true) ∧
        s.table.row (setEntry 1 1 1 [97]).ref.rowKey =
          some (recordFromEntry (setEntry 1 1 1 [97])) ∧ s.ring = [] ∧
        (∀ th ∈ s.threads, th.hand = none ∧ th.collected = []) ∧
        s.pending.entries.toList = [] ∧ s.pending.bytes = 0)
      (by decide +kernel)
  obtain ⟨u, joined, -⟩ := Run.exists_of_exec _ _ s _ _ next
  obtain ⟨v, failed, -⟩ := Run.exists_of_exec _ _ s _ _ next'
  refine ⟨s, u, v, run, joined, fun keeps => ?_, failed, ?_⟩
  · have spared :=
      (join_keeps_entry_iff plainServer joinerAtOne .purged (by decide) joined 5 6).1.1 keeps
    exact absurd spared (by simp [Joiner.Purges, joinerAtOne])
  · have below : (setEntry 1 1 1 [97]).generation < 2 := by decide
    obtain ⟨kept, stands⟩ :=
      join_keeps_entry_iff plainServer joinerAtOne .rowsFailed below failed 5 6
    refine kept.2 (.inr ⟨⟨by decide, rfl⟩, (stands ?_).2 ⟨⟨rfl, rfl, rfl⟩, ⟨row, ?_, ?_, ?_⟩, ?_⟩⟩)
    · rw [Pending.Counted, bytes, Pending.total, pending]
      rfl
    · simp [ring]
    · intro th mem x hand
      rw [(threads th mem).1] at hand
      cases hand
    · intro th mem x batch
      rw [(threads th mem).2] at batch
      cases batch
    · simp [pending]

/-- A write that is live in the table and returned before the failover is not found right after it,
although nothing newer was ever written. -/
theorem failover_purges_live_row :
    ∃ s u, Run plainServer.step anyAction (.start .empty) flushedRun s ∧
      Run plainServer.step anyAction s (joinerAtOne.join 2 s.purges.length .purged).2 u ∧
      s.appended = [setEntry 1 1 1 [97]] ∧
      plainServer.loadFromMySQL s (setEntry 1 1 1 [97]).ref 5 6 =
        .found (recordFromEntry (setEntry 1 1 1 [97])) ∧
      plainServer.loadFromMySQL u (setEntry 1 1 1 [97]).ref 5 6 = .notFound := by
  obtain ⟨s, run, appended, before, next⟩ := Run.exists_of_exec plainServer.step anyAction
    (.start .empty) flushedRun
    (fun s => s.appended = [setEntry 1 1 1 [97]] ∧
      plainServer.loadFromMySQL s (setEntry 1 1 1 [97]).ref 5 6 =
        .found (recordFromEntry (setEntry 1 1 1 [97])) ∧
      (exec plainServer.step anyAction s (joinerAtOne.join 2 s.purges.length .purged).2).any
        (fun u => plainServer.loadFromMySQL u (setEntry 1 1 1 [97]).ref 5 6 = .notFound) = true)
    (by decide +kernel)
  obtain ⟨u, joined, after⟩ := Run.exists_of_exec _ _ s _ _ next
  exact ⟨s, u, run, joined, appended, before, after⟩

end OlricStack.Sidecar
