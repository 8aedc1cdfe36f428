import OlricStack.Sidecar.Calls

/-!
# The sidecar as a map

With calls that do not overlap, the server stands for a map in which the last popped entry of a
reference wins (`lastWrite`).  The map is split over the pending set and the table, and entries move
from one to the other in batches that may fail half-way; `LoadFromMySQL` does not notice
(`load_finds_lastWrite`).
-/

namespace OlricStack.Sidecar

open Transition

/-! ## The map -/

/-- The record of the last popped entry of a reference, or the row the table started with. -/
def lastWrite (t : Table) (popped : List Entry) (ref : EntryRef) : Option EntryRecord :=
  match (popped.filter fun e => e.ref = ref).getLast? with
  | some e => some (recordFromEntry e)
  | none => t.row ref.rowKey

/-- How a read of the map is answered at an instant: a tombstone and an expired record are not
found. -/
def answer (nowMs : ℤ) : Option EntryRecord → LoadResponse
  | some rec => respond nowMs rec
  | none => .notFound

/-- Appended entries are of known references, and those of one reference have increasing fences,
above that of the row the table started with. -/
def LogOrder (known : Set EntryRef) (t : Table) (s : State) : Call → Prop
  | .append e =>
    e.ref ∈ known ∧ (∀ x ∈ s.appended, x.ref = e.ref → x.fence < e.fence) ∧
      ∀ r ∈ t.row e.ref.rowKey, r.fence < e.fence
  | _ => True

instance (known : Set EntryRef) [DecidablePred (· ∈ known)] (t : Table) (s : State) :
    DecidablePred (LogOrder known t s)
  | .append _ => inferInstanceAs (Decidable (_ ∧ _))
  | .drainRing | .flushOnce _ _ | .drainPartition _ _ _ _ _ | .shutdown _ _
  | .loadFromMySQL _ _ _ => isTrue trivial

/-! ## Where the map is -/

/-- The pending set holds the last popped entries, rows come from popped entries or are the old
ones, and nothing popped is missing from both. -/
structure Split (known : Set EntryRef) (t : Table) (s : State) : Prop where
  known : ∀ e ∈ s.appended, e.ref ∈ known
  ordered : s.appended.Pairwise fun x y => x.ref = y.ref → x.fence < y.fence
  above : ∀ e ∈ s.appended, ∀ r ∈ t.row e.ref.rowKey, r.fence < e.fence
  queued : (s.arrived ++ s.ring).Sublist s.appended
  pending : ∀ ref, ∀ e ∈ s.pending.get ref, e ∈ s.arrived ∧
    ∀ x ∈ s.arrived, x.ref = ref → x.fence ≤ e.fence
  kept : ∀ e ∈ s.arrived, PendingOrStored s e
  oldRows : ∀ k, ∀ r ∈ t.row k, s.table.Dominates k r.fence
  rows : ∀ k, ∀ r ∈ s.table.row k, r ∈ t.row k ∨
    ∃ e ∈ s.arrived, e.ref.rowKey = k ∧ r = recordFromEntry e

namespace Split

variable {known : Set EntryRef} {t : Table} {s : State}

theorem start (known : Set EntryRef) (t : Table) : Split known t (.start t) where
  known := by simp [State.start]
  ordered := by simp [State.start]
  above := by simp [State.start]
  queued := List.Sublist.refl _
  pending := by simp [State.start]
  kept := by simp [State.start]
  oldRows k r hr := ⟨r, hr, le_rfl⟩
  rows k r hr := .inl hr

theorem appended_of_arrived (inv : Split known t s) {e : Entry} (he : e ∈ s.arrived) :
    e ∈ s.appended :=
  inv.queued.subset (List.mem_append_left _ he)

theorem append (inv : Split known t s) {e : Entry} (order : LogOrder known t s (.append e)) :
    Split known t
      { s with ring := s.ring ++ [encode e], appended := s.appended ++ [encode e] } where
  known := forall_mem_snoc inv.known order.1
  ordered := by
    refine List.pairwise_append.2 ⟨inv.ordered, List.pairwise_singleton _ _, ?_⟩
    intro x hx y hy
    rw [List.mem_singleton.1 hy]
    exact order.2.1 x hx
  above := forall_mem_snoc inv.above order.2.2
  queued := by
    rw [← List.append_assoc]
    exact inv.queued.append (List.Sublist.refl _)
  pending := inv.pending
  kept := inv.kept
  oldRows := inv.oldRows
  rows := inv.rows

/-- Payloads that are thrown away do not matter. -/
theorem unread (inv : Split known t s) {unread : List Entry} (sub : unread.Sublist s.ring) :
    Split known t { s with ring := unread } :=
  { inv with queued := ((List.Sublist.refl _).append sub).trans inv.queued }

/-- Popping one payload and putting it. -/
theorem put (inv : Split known t s) {e : Entry} {rest : List Entry} (ring : s.ring = e :: rest) :
    Split known t
      { s with ring := rest, pending := s.pending.put e, arrived := s.arrived ++ [e] } := by
  have queued : (s.arrived ++ [e] ++ rest).Sublist s.appended := by
    simpa [ring] using inv.queued
  have newest : ∀ x ∈ s.arrived, x.ref = e.ref → x.fence < e.fence := by
    have ordered := inv.ordered.sublist ((List.sublist_append_left _ _).trans queued)
    exact fun x hx => (List.pairwise_append.1 ordered).2.2 x hx e (List.mem_singleton_self e)
  refine ⟨inv.known, inv.ordered, inv.above, queued, ?_, ?_, inv.oldRows, ?_⟩
  · intro ref e' he'
    by_cases hr : ref = e.ref
    · subst hr
      obtain rfl : e = e' := by simpa using he'
      exact ⟨by simp, forall_mem_snoc (fun x hx ref => (newest x hx ref).le) fun _ => le_rfl⟩
    · rw [Option.mem_def, s.pending.get_put_of_ne hr] at he'
      obtain ⟨mem, le⟩ := inv.pending ref e' he'
      exact ⟨List.mem_append_left _ mem, forall_mem_snoc le fun h => absurd h.symm hr⟩
  · refine forall_mem_snoc (fun x hx => (inv.kept x hx).imp_left (held_put fun e' he' => ?_)) ?_
    · exact (newest e' (inv.pending _ e' he').1 (s.pending.ref_of_get he')).le
    · exact .inl ⟨e, s.pending.get_put_self e, le_rfl⟩
  · intro k r hr
    exact (inv.rows k r hr).imp_right fun ⟨x, hx, h⟩ => ⟨x, List.mem_append_left _ hx, h⟩

theorem drain (inv : Split known t s) {popped unread : List Entry}
    (sub : (popped ++ unread).Sublist s.ring) :
    Split known t
      { s with
        ring := unread, pending := s.pending.putAll popped, arrived := s.arrived ++ popped } := by
  replace inv := inv.unread sub
  clear sub
  induction popped generalizing s with
  | nil => simpa [Pending.putAll] using inv
  | cons e popped ih =>
    have first := inv.put (e := e) rfl
    simpa [Pending.putAll_cons] using ih (s := { s with
      ring := popped ++ unread, pending := s.pending.put e, arrived := s.arrived ++ [e] }) first

/-- Upserting records of popped entries. -/
theorem upsert (inv : Split known t s) {l : List EntryRecord}
    (records : ∀ r ∈ l, ∃ e ∈ s.arrived, r = recordFromEntry e) :
    Split known t { s with table := s.table.upsertAll .standard l } where
  known := inv.known
  ordered := inv.ordered
  above := inv.above
  queued := inv.queued
  pending := inv.pending
  kept e he := (inv.kept e he).imp_right fun h => h.upsertAll _ _
  oldRows k r hr := (inv.oldRows k r hr).upsertAll _ _
  rows k r hr := by
    rcases Table.mem_row_upsertAll_standard hr with old | ⟨new, rfl⟩
    · exact inv.rows k r old
    · obtain ⟨e, he, rfl⟩ := records r new
      exact .inr ⟨e, he, rfl, rfl⟩

/-- Dropping what has just been copied and upserted. -/
theorem dropAll (inv : Split known t s) {entries : List Entry}
    (copied : ∀ e ∈ entries, s.pending.get e.ref = some e)
    (stored : ∀ e ∈ entries, s.table.Dominates e.ref.rowKey e.fence) :
    Split known t { s with pending := s.pending.dropAll entries } := by
  have get := s.pending.get_dropAll (l := entries) fun e he e' he' =>
    Option.mem_unique he' (copied e he)
  refine ⟨inv.known, inv.ordered, inv.above, inv.queued, ?_, ?_, inv.oldRows, inv.rows⟩
  · intro ref e he
    rw [Option.mem_def, get] at he
    split_ifs at he
    exact inv.pending ref e he
  · intro e he
    rcases inv.kept e he with ⟨e', he', le⟩ | h
    · by_cases dropped : ∃ x ∈ entries, x.ref = e.ref
      · obtain ⟨x, hx, ref⟩ := dropped
        have found := copied x hx
        rw [ref] at found
        obtain rfl := Option.mem_unique he' found
        have row := stored e' hx
        rw [ref] at row
        exact .inr (row.mono le)
      · refine .inl ⟨e', ?_, le⟩
        rw [Option.mem_def, get, if_neg dropped]
        exact he'
    · exact .inr h

theorem flush (inv : Split known t s) {srv : Server} (standard : srv.backend.dialect = .standard)
    {entries : List Entry} (copied : ∀ e ∈ entries, s.pending.get e.ref = some e)
    {res : Except CallError Unit} {sh' : Shared} (h : Flushes srv s.toShared entries res sh') :
    Split known t { s with toShared := sh' } := by
  have records : ∀ r ∈ entries.map recordFromEntry, ∃ e ∈ s.arrived, r = recordFromEntry e := by
    intro r hr
    obtain ⟨e, he, rfl⟩ := List.mem_map.1 hr
    exact ⟨e, (inv.pending _ e (copied e he)).1, rfl⟩
  cases h with
  | done =>
    rw [standard]
    refine (inv.upsert records).dropAll copied fun e he => ?_
    exact Table.dominates_upsertAll _ _ (List.mem_map_of_mem he)
  | failed sub =>
    rw [standard]
    exact inv.upsert fun r hr => records r (sub.subset hr)

theorem step (inv : Split known t s) {srv : Server} (standard : srv.backend.dialect = .standard)
    {c : Call} {u : State} (order : LogOrder known t s c) (h : srv.call s c = some u) :
    Split known t u := by
  cases Server.call_spec h with
  | idle => exact inv
  | append => exact inv.append order
  | drain sub => exact inv.drain sub
  | flush sub drained copied flushes =>
    subst drained
    exact (inv.drain sub).flush standard copied flushes

/-! ## Reading the map -/

theorem lastWrite_eq_of_newest (inv : Split known t s) {e : Entry} (he : e ∈ s.arrived)
    (newest : ∀ x ∈ s.arrived, x.ref = e.ref → x.fence ≤ e.fence) :
    lastWrite t s.arrived e.ref = some (recordFromEntry e) := by
  have ordered : s.arrived.Pairwise fun x y => x.ref = y.ref → x.fence < y.fence :=
    inv.ordered.sublist ((List.sublist_append_left _ _).trans inv.queued)
  -- nothing of the reference follows `e`, as it would be newer
  obtain ⟨before, after, split⟩ := List.append_of_mem he
  rw [split] at ordered newest
  have last : after.filter (fun x => x.ref = e.ref) = [] := by
    refine List.filter_eq_nil_iff.2 fun x hx => ?_
    have later := (List.pairwise_cons.1 (List.pairwise_append.1 ordered).2.1).1 x hx
    intro ref
    replace ref : x.ref = e.ref := by simpa using ref
    exact (later ref.symm).not_ge (newest x (by simp [hx]) ref)
  simp [lastWrite, split, List.filter_append, last]

theorem lastWrite_eq_row {ref : EntryRef} (inv : Split known t s)
    (distinct : known.InjOn EntryRef.rowKey) (hk : ref ∈ known)
    (missed : s.pending.get ref = none) : lastWrite t s.arrived ref = s.table.row ref.rowKey := by
  have refOf : ∀ e ∈ s.arrived, e.ref.rowKey = ref.rowKey → e.ref = ref := fun e he row =>
    distinct (inv.known e (inv.appended_of_arrived he)) hk row
  have stored : ∀ e ∈ s.arrived, e.ref = ref → s.table.Dominates ref.rowKey e.fence := by
    rintro e he rfl
    rcases inv.kept e he with ⟨e', he', -⟩ | h
    · rw [missed] at he'
      cases he'
    · exact h
  by_cases written : ∃ e ∈ s.arrived, e.ref = ref
  · obtain ⟨e, he, rfl⟩ := written
    obtain ⟨r, hr, le⟩ := stored e he rfl
    -- the row is at least as new as a popped entry, so it is not the old one
    rcases inv.rows _ r hr with old | ⟨x, hx, row, rfl⟩
    · exact absurd le (inv.above e (inv.appended_of_arrived he) r old).not_ge
    · have ref := refOf x hx row
      rw [hr, ← ref]
      refine inv.lastWrite_eq_of_newest hx fun y hy yref => ?_
      obtain ⟨r', hr', le'⟩ := stored y hy (yref.trans ref)
      obtain rfl := Option.mem_unique hr' hr
      exact le'
  · have none : (s.arrived.filter fun e => e.ref = ref) = [] := by
      refine List.filter_eq_nil_iff.2 fun e he href => written ⟨e, he, by simpa using href⟩
    simp only [lastWrite, none, List.getLast?_nil]
    rcases hr : s.table.row ref.rowKey with _ | r
    · by_contra some
      obtain ⟨r, old⟩ := Option.ne_none_iff_exists'.1 some
      obtain ⟨r', hr', -⟩ := inv.oldRows _ r old
      rw [hr] at hr'
      cases hr'
    · rcases inv.rows _ r hr with old | ⟨x, hx, row, -⟩
      · exact old
      · exact absurd ⟨x, hx, refOf x hx row⟩ written

end Split

/-- A record that has expired stays expired. -/
theorem recordExpiredAt_mono {r : EntryRecord} {nowMs nowMs' : ℤ} (le : nowMs ≤ nowMs')
    (h : recordExpiredAt r nowMs) : recordExpiredAt r nowMs' := by
  unfold recordExpiredAt at h ⊢
  split_ifs at h ⊢
  simp only [decide_eq_true_eq] at h ⊢
  omega

theorem readRow_eq_answer (b : MySQLBackend) (t : Table) (ref : EntryRef) {nowMs nowMs' : ℤ}
    (le : nowMs ≤ nowMs') :
    readRow b t ref nowMs nowMs' = answer nowMs' (t.row ref.rowKey) := by
  rcases row : t.row ref.rowKey with _ | r
  · simp [readRow, MySQLBackend.loadFromMySQL, row, answer]
  · simp only [readRow, MySQLBackend.loadFromMySQL, row, answer]
    split_ifs with tombstone expired
    · simp [respond, tombstone]
    · simp [respond, recordExpiredAt_mono le expired]
    · rfl

theorem Split.load {known : Set EntryRef} {t : Table} {s : State} (inv : Split known t s)
    (distinct : known.InjOn EntryRef.rowKey) (srv : Server) {ref : EntryRef} (hk : ref ∈ known)
    {nowMs nowMs' : ℤ} (le : nowMs ≤ nowMs') :
    ∃ now, nowMs ≤ now ∧ now ≤ nowMs' ∧
      srv.loadFromMySQL s ref nowMs nowMs' = answer now (lastWrite t s.arrived ref) := by
  rcases pending : s.pending.get ref with _ | e
  · refine ⟨nowMs', le, le_rfl, ?_⟩
    simp only [Server.loadFromMySQL, lookup, pending]
    rw [readRow_eq_answer _ _ _ le, inv.lastWrite_eq_row distinct hk pending]
  · refine ⟨nowMs, le_rfl, le, ?_⟩
    obtain ⟨arrived, newest⟩ := inv.pending ref e pending
    obtain rfl := s.pending.ref_of_get pending
    simp only [Server.loadFromMySQL, lookup, pending]
    rw [inv.lastWrite_eq_of_newest arrived newest, answer]

/-- The call only moves entries from the pending set to the table. -/
def Call.Flushes : Call → Prop
  | .flushOnce _ _ => True
  | .shutdown _ _ => True
  | _ => False

theorem Call.Flushes.arrived_eq {srv : Server} {s u : State} {c : Call} (flushes : c.Flushes)
    (h : srv.call s c = some u) : u.arrived = s.arrived := by
  have keeps : ∀ {entries : List Entry} {r : UpsertResult} {out : Except CallError Unit × Shared},
      srv.flushOnce s.toShared entries r = some out → out.2.arrived = s.arrived := by
    rintro entries r ⟨res, sh⟩ hout
    simp only [Server.flushOnce] at hout
    split_ifs at hout
    cases Server.flushEntries_spec hout with
    | done => rfl
    | failed _ => rfl
  cases c with
  | flushOnce entries r =>
    obtain ⟨out, hout, rfl⟩ := Option.map_eq_some_iff.1 h
    exact keeps hout
  | shutdown entries r =>
    obtain ⟨out, hout, rfl⟩ := Option.map_eq_some_iff.1 h
    exact keeps hout
  | append _ | drainRing | drainPartition _ _ _ _ _ | loadFromMySQL _ _ _ => exact flushes.elim

/-- Calls run one after another, upserts keep the larger fence, no two known references share a row,
and entries of one reference are appended with increasing fences, above the row the table started
with.  Then in every state reached `LoadFromMySQL` finds the record of the last popped entry of the
reference, or the old row, as of an instant during the call; and a flush, whether it succeeds or
not, changes no answer. -/
theorem load_finds_lastWrite (srv : Server) (standard : srv.backend.dialect = .standard)
    (known : Set EntryRef) (distinct : known.InjOn EntryRef.rowKey) (t : Table) {cs : List Call}
    {s : State} (run : Run srv.call (LogOrder known t) (.start t) cs s) {ref : EntryRef}
    (hk : ref ∈ known) :
    (∀ nowMs nowMs', nowMs ≤ nowMs' → ∃ now, nowMs ≤ now ∧ now ≤ nowMs' ∧
      srv.loadFromMySQL s ref nowMs nowMs' = answer now (lastWrite t s.arrived ref)) ∧
    ∀ c u, c.Flushes → srv.call s c = some u →
      ∀ now, srv.loadFromMySQL u ref now now = srv.loadFromMySQL s ref now now := by
  have inv : Split known t s := run.invariant (Split known t) (.start known t)
    fun s c u inv order enabled => inv.step standard order enabled
  refine ⟨fun nowMs nowMs' le => inv.load distinct srv hk le, fun c u flushes enabled now => ?_⟩
  have order : LogOrder known t s c := by
    cases c with
    | append _ => exact flushes.elim
    | _ => trivial
  obtain ⟨n, low, high, before⟩ := inv.load distinct srv hk (le_refl now)
  obtain ⟨n', low', high', after⟩ :=
    (inv.step standard order enabled).load distinct srv hk (le_refl now)
  rw [before, after, flushes.arrived_eq enabled, le_antisymm high low, le_antisymm high' low']

/-- A server on a database whose upserts keep the larger fence. -/
def standardServer : Server := newServer (newMySQLBackend .standard 256) ⟨256, 0, 0⟩

/-- A key is written twice; the first flush fails after committing, the second write arrives and is
flushed. -/
def retriedFlushCalls : List Call :=
  let old := setEntry 1 1 1 [97]
  let new := setEntry 1 2 1 [97]
  [.append old, .drainRing, .flushOnce [old] (.fails [recordFromEntry old]), .append new,
    .drainPartition [100] 0 1 [new] .succeeds]

theorem load_finds_lastWrite_retried :
    ∃ s, Run standardServer.call (LogOrder {(setEntry 1 1 1 [97]).ref} .empty) (.start .empty)
        retriedFlushCalls s ∧
      standardServer.loadFromMySQL s (setEntry 1 1 1 [97]).ref 0 0 =
        .found (recordFromEntry (setEntry 1 2 1 [97])) := by
  obtain ⟨s, run, written⟩ := Run.exists_of_exec standardServer.call
    (LogOrder {(setEntry 1 1 1 [97]).ref} .empty) (.start .empty) retriedFlushCalls
    (fun s => lastWrite .empty s.arrived (setEntry 1 1 1 [97]).ref =
      some (recordFromEntry (setEntry 1 2 1 [97]))) (by decide +kernel)
  obtain ⟨now, low, high, found⟩ := (load_finds_lastWrite standardServer rfl _
    (Set.injOn_singleton _ _) .empty run (Set.mem_singleton _)).1 0 0 le_rfl
  refine ⟨s, run, ?_⟩
  rw [found, written, le_antisymm high low]
  decide

end OlricStack.Sidecar
