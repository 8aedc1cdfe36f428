import OlricStack.Sidecar.Restart

/-!
# Reads on the miss path

`LoadFromMySQL` looks into the pending set and then into the table, but not into the ring.  When
nothing older than the call is still on its way to the pending set, and the pending set and the rows
only move forward, the answer reflects the newest entry appended before the call or a later one
(`load_reflects_appended`).  Otherwise an acknowledged write is not seen (`load_misses_unread`).
-/

namespace OlricStack.Sidecar

open Transition

/-! ## What an answer reflects -/

/-- For every entry of the reference that was appended before the call, the answer is the one that
this entry or a later one calls for at one of the call's readings of the clock. -/
def Reflects (appended : List Entry) (ld : Load) (r : LoadResponse) (clock : List ℤ) : Prop :=
  ∀ k x, k < ld.before → appended[k]? = some x → x.ref = ld.ref →
    ∃ k' e, k ≤ k' ∧ appended[k']? = some e ∧ e.ref = ld.ref ∧
      ∃ nowMs ∈ clock, r = respond nowMs (recordFromEntry e)

/-! ## Conditions -/

/-- The records an action upserts. -/
def upserting (s : State) : Action → List EntryRecord
  | .thread i .go =>
    match s.threads[i]? with
    | some ⟨_, .collected _ entries⟩ => entries.map recordFromEntry
    | _ => []
  | .thread _ (.fail committed) => committed
  | _ => []

/-- Appended entries of one row have one reference, increasing fences, and fences above the row the
table had at the start. -/
def AppendsForward (t : Table) (s : State) : Action → Prop
  | .append e =>
    (∀ x ∈ s.appended, x.ref.rowKey = e.ref.rowKey → x.ref = e.ref ∧ x.fence < e.fence) ∧
      ∀ r ∈ t.row e.ref.rowKey, r.fence < e.fence
  | _ => True

/-- A put does not go back behind the row. -/
def PutsAboveRow (s : State) (a : Action) : Prop :=
  ∀ e ∈ putting s a, ∀ r ∈ s.table.row e.ref.rowKey, r.fence ≤ e.fence

/-- At the look into the pending set, no entry of the reference that was appended before the call is
unread in the ring or in the hands of a thread. -/
def LooksSettled (s : State) : Action → Prop
  | .lookup i _ =>
    ∀ ld ∈ s.loads[i]?, ∀ x ∈ s.appended.take ld.before, x.ref = ld.ref →
      x ∉ s.ring ∧ ∀ th ∈ s.threads, th.hand ≠ some x
  | _ => True

/-- The steps along which reads on the miss path see what was appended. -/
def Settled (srv : Server) (t : Table) (s : State) (a : Action) : Prop :=
  Lossless s a ∧ AppendsForward t s a ∧ PutsAboveRow s a ∧
    Table.WholeUpserts srv.backend.dialect s.table (upserting s a) ∧ LooksSettled s a

instance (t : Table) (s : State) : DecidablePred (AppendsForward t s)
  | .append _ => inferInstanceAs (Decidable (_ ∧ _))
  | .call _ | .thread _ _ | .load _ | .lookup _ _ | .readRow _ _ _ | .purge _ | .purgePending _
  | .purgeRows _ _ | .cancel | .restart => isTrue trivial

instance (s : State) (a : Action) : Decidable (PutsAboveRow s a) := by
  unfold PutsAboveRow
  infer_instance

instance (s : State) : DecidablePred (LooksSettled s)
  | .lookup _ _ => inferInstanceAs (Decidable (∀ ld ∈ _, _))
  | .append _ | .call _ | .thread _ _ | .load _ | .readRow _ _ _ | .purge _ | .purgePending _
  | .purgeRows _ _ | .cancel | .restart => isTrue trivial

instance (srv : Server) (t : Table) (s : State) (a : Action) : Decidable (Settled srv t s a) := by
  unfold Settled
  infer_instance

/-! ## Where entries are -/

/-- An entry of the reference that is not older than `e` is pending, or `e` is in the table. -/
def PendingOrStored (s : State) (e : Entry) : Prop :=
  (∃ e' ∈ s.pending.get e.ref, e.fence ≤ e'.fence) ∨ s.table.Dominates e.ref.rowKey e.fence

/-- Everything in flight was appended, rows and pending entries are in order, and what a thread has
copied is still pending or in the table. -/
structure Flow (t : Table) (s : State) : Prop where
  ordered : s.appended.Pairwise fun x y =>
    x.ref.rowKey = y.ref.rowKey → x.ref = y.ref ∧ x.fence < y.fence
  above : ∀ e ∈ s.appended, ∀ r ∈ t.row e.ref.rowKey, r.fence < e.fence
  ring : ∀ e ∈ s.ring, e ∈ s.appended
  hands : ∀ th ∈ s.threads, ∀ e ∈ th.hand, e ∈ s.appended
  batches : ∀ th ∈ s.threads, ∀ e ∈ th.batch, e ∈ s.appended ∧ PendingOrStored s e
  pending : ∀ ref, ∀ e ∈ s.pending.get ref, e ∈ s.appended ∧
    ∀ r ∈ s.table.row ref.rowKey, r.fence ≤ e.fence
  rows : ∀ k, ∀ r ∈ s.table.row k, r ∈ t.row k ∨
    ∃ e ∈ s.appended, e.ref.rowKey = k ∧ r = recordFromEntry e

namespace Flow

variable {t : Table} {s : State}

theorem ref_eq (flow : Flow t s) {x y : Entry} (hx : x ∈ s.appended) (hy : y ∈ s.appended)
    (row : x.ref.rowKey = y.ref.rowKey) : x.ref = y.ref := by
  by_cases same : x = y
  · rw [same]
  have refs : s.appended.Pairwise fun x y => x.ref.rowKey = y.ref.rowKey → x.ref = y.ref :=
    flow.ordered.imp fun h r => (h r).1
  have symm : Std.Symm fun x y : Entry => x.ref.rowKey = y.ref.rowKey → x.ref = y.ref :=
    ⟨fun x y h r => (h r.symm).symm⟩
  exact refs.forall hx hy same row

/-- An entry that is pending or stored is not newer than the pending entry of its row. -/
theorem le_pending (flow : Flow t s) {e e' : Entry} {ref : EntryRef} (he : e ∈ s.appended)
    (row : e.ref.rowKey = ref.rowKey) (pending : e' ∈ s.pending.get ref)
    (settled : PendingOrStored s e) : e.fence ≤ e'.fence := by
  obtain ⟨he', le⟩ := flow.pending ref e' pending
  have ref' := s.pending.ref_of_get pending
  rcases settled with ⟨e'', he'', le''⟩ | ⟨r, hr, ler⟩
  · have same : e.ref = ref := (flow.ref_eq he he' (by rw [ref', row])).trans ref'
    rw [same] at he''
    obtain rfl := Option.mem_unique he'' pending
    exact le''
  · rw [row] at hr
    exact ler.trans (le r hr)

/-- The thread at `i` takes other entries in hand. -/
theorem move (flow : Flow t s) {i : ℕ} {th : Thread} (hand : ∀ e ∈ th.hand, e ∈ s.appended)
    (batch : ∀ e ∈ th.batch, e ∈ s.appended ∧ PendingOrStored s e) :
    Flow t { s with threads := s.threads.set i th } :=
  { flow with
    hands := forall_mem_set flow.hands hand
    batches := forall_mem_set flow.batches batch }

theorem put (flow : Flow t s) {x : Entry} (mem : x ∈ s.appended)
    (forward : ∀ e' ∈ s.pending.get x.ref, e'.fence ≤ x.fence)
    (above : ∀ r ∈ s.table.row x.ref.rowKey, r.fence ≤ x.fence) (arrived : List Entry) :
    Flow t { s with pending := s.pending.put x, arrived := arrived } :=
  { flow with
    batches := fun th hth e he =>
      ⟨(flow.batches th hth e he).1, (flow.batches th hth e he).2.imp_left (held_put forward)⟩
    pending := by
      intro ref e he
      by_cases same : ref = x.ref
      · subst same
        obtain rfl : x = e := by simpa using he
        exact ⟨mem, above⟩
      · rw [Option.mem_def, s.pending.get_put_of_ne same] at he
        exact flow.pending ref e he }

theorem drop (flow : Flow t s) {x : Entry}
    (grown : ∀ e' ∈ s.pending.get x.ref, e' = x ∨ x.ownerSeq < e'.ownerSeq)
    (flushed : s.table.Dominates x.ref.rowKey x.fence) :
    Flow t { s with pending := s.pending.drop x.ref x.ownerSeq } :=
  { flow with
    batches := by
      intro th hth e he
      obtain ⟨mem, settled⟩ := flow.batches th hth e he
      exact ⟨mem, settled.elim (held_drop grown flushed) .inr⟩
    pending := fun ref e he => flow.pending ref e (s.pending.get_of_get_drop he) }

/-- Upserting copies that some thread holds. -/
theorem upsert (flow : Flow t s) {d : Dialect} {th : Thread} {l : List EntryRecord}
    (hth : th ∈ s.threads) (sub : ∀ r ∈ l, ∃ e ∈ th.batch, r = recordFromEntry e)
    (whole : Table.WholeUpserts d s.table l) :
    Flow t { s with table := s.table.upsertAll d l } := by
  have origin : ∀ k, ∀ r ∈ (s.table.upsertAll d l).row k, r ∈ s.table.row k ∨
      ∃ e ∈ th.batch, e.ref.rowKey = k ∧ r = recordFromEntry e := by
    intro k r hr
    rw [Table.upsertAll_eq_standard whole] at hr
    refine (Table.mem_row_upsertAll_standard hr).imp_right fun ⟨hl, hk⟩ => ?_
    obtain ⟨e, he, rfl⟩ := sub r hl
    exact ⟨e, he, hk, rfl⟩
  refine { flow with batches := ?_, pending := ?_, rows := ?_ }
  · intro th' hth' e he
    obtain ⟨mem, settled⟩ := flow.batches th' hth' e he
    exact ⟨mem, settled.imp_right fun h => h.upsertAll d l⟩
  · intro ref e' he'
    refine ⟨(flow.pending ref e' he').1, fun r hr => ?_⟩
    rcases origin _ r hr with old | ⟨e, he, row, rfl⟩
    · exact (flow.pending ref e' he').2 r old
    · obtain ⟨mem, settled⟩ := flow.batches th hth e he
      exact flow.le_pending mem row he' settled
  · intro k r hr
    rcases origin k r hr with old | ⟨e, he, row, rfl⟩
    · exact flow.rows k r old
    · exact .inr ⟨e, (flow.batches th hth e he).1, row, rfl⟩

end Flow

theorem upserting_of_collected {s : State} {i : ℕ} {c : Caller} {drained : ℕ} {entries : List Entry}
    (at_i : s.threads[i]? = some ⟨c, .collected drained entries⟩) :
    upserting s (.thread i .go) = entries.map recordFromEntry := by
  simp [upserting, at_i]

theorem Flow.thread {srv : Server} {t : Table} {s : State} {i : ℕ} {ch : Choice} {th th' : Thread}
    {sh' : Shared} (flow : Flow t s) (at_i : s.threads[i]? = some th)
    (upserted : Upserted s.toShared th) (ok : Settled srv t s (.thread i ch))
    (does : ThreadStep srv s.toShared th ch sh' th') :
    Flow t { s with toShared := sh', threads := s.threads.set i th' } := by
  obtain ⟨⟨-, forward, grown, -⟩, -, above, whole, -⟩ := ok
  have mem := List.mem_of_getElem? at_i
  have batch := flow.batches th mem
  cases does with
  | move _ to_plain =>
    exact flow.move (by simp [(to_plain _).1]) (by simp [(to_plain _).2.1])
  | @pop _ _ payload rest unread =>
    have ring := flow.ring
    rw [unread] at ring
    have shorter : Flow t { s with ring := rest } :=
      { flow with ring := fun e he => ring e (List.mem_cons_of_mem _ he) }
    refine shorter.move (fun e he => ?_) (by simp [Thread.batch])
    cases he
    exact ring payload List.mem_cons_self
  | reject _ => exact flow.move (by simp [Thread.hand]) (by simp [Thread.batch])
  | @put _ _ x _ good to_plain =>
    have putting := putting_of_popped at_i
    have next := flow.put (flow.hands _ mem x rfl) (forward x putting).2 (above x putting)
      (s.arrived ++ [x])
    exact next.move (by simp [(to_plain _).1]) (by simp [(to_plain _).2.1])
  | collect copied =>
    refine flow.move (by simp [Thread.hand]) fun e he => ?_
    have pending := copied e he
    exact ⟨(flow.pending e.ref e pending).1, .inl ⟨e, pending, le_rfl⟩⟩
  | @upsert _ _ entries =>
    rw [upserting_of_collected at_i] at whole
    have next := flow.upsert mem (fun r hr => by simpa [Thread.batch, eq_comm] using hr) whole
    exact next.move (by simp [Thread.hand]) fun e he => next.batches _ mem e he
  | fail sub =>
    have next := flow.upsert mem
      (fun r hr => by simpa [Thread.batch, eq_comm] using sub.subset hr) whole
    exact next.move (by simp [Thread.hand]) (by simp [Thread.batch])
  | @drop _ _ x rest =>
    have next := flow.drop (grown x (dropping_of_upserted at_i))
      (upserted x (by simp [Thread.upserted]))
    exact next.move (by simp [Thread.hand]) fun e he =>
      next.batches _ mem e (List.mem_cons_of_mem _ he)

theorem Flow.append {t : Table} {s : State} {e : Entry} (flow : Flow t s)
    (ok : AppendsForward t s (.append e)) :
    Flow t { s with ring := s.ring ++ [encode e], appended := s.appended ++ [encode e] } where
  ordered := by
    refine List.pairwise_append.2 ⟨flow.ordered, List.pairwise_singleton _ _, ?_⟩
    intro x hx y hy row
    obtain rfl := List.mem_singleton.1 hy
    exact ok.1 x hx row
  above := by
    intro x hx
    rcases List.mem_append.1 hx with hx | hx
    · exact flow.above x hx
    · obtain rfl := List.mem_singleton.1 hx
      exact ok.2
  ring := by
    intro x hx
    exact List.mem_append.2 ((List.mem_append.1 hx).imp_left (flow.ring x))
  hands th hth x hx := List.mem_append_left _ (flow.hands th hth x hx)
  batches th hth x hx := (flow.batches th hth x hx).imp_left (List.mem_append_left _)
  pending ref x hx := (flow.pending ref x hx).imp_left (List.mem_append_left _)
  rows k r hr := (flow.rows k r hr).imp_right fun ⟨x, hx, h⟩ => ⟨x, List.mem_append_left _ hx, h⟩

theorem flow_step {srv : Server} {t : Table} {s u : State} {a : Action} (ok : Settled srv t s a)
    (upserted : ∀ th ∈ s.threads, Upserted s.toShared th) (flow : Flow t s)
    (h : srv.step s a = some u) : Flow t u := by
  cases Server.step_spec h with
  | thread at_i does => exact flow.thread at_i (upserted _ (List.mem_of_getElem? at_i)) ok does
  | append => exact flow.append ok.2.1
  | call plain =>
    exact { flow with
      hands := forall_mem_snoc flow.hands (by simp [(plain _).1])
      batches := forall_mem_snoc flow.batches (by simp [(plain _).2.1]) }
  | quiet _ => exact { flow with }
  | purgePending => exact ok.1.1.elim
  | purgeRows => exact ok.1.1.elim
  | restart =>
    refine { flow with hands := ?_, batches := ?_, pending := by simp }
    · simp [runThread, Thread.hand]
    · simp [runThread, Thread.batch]

/-! ## Calls -/

/-- What is known of a `LoadFromMySQL` call: after a miss, everything of its reference that was
appended before it is in the table; the answer reflects what was appended. -/
def LoadInv (s : State) (ld : Load) : Prop :=
  ld.before ≤ s.appended.length ∧
    match ld.pc with
    | .called => True
    | .missed => ∀ x ∈ s.appended.take ld.before, x.ref = ld.ref →
        s.table.Dominates x.ref.rowKey x.fence
    | .answered r clock => Reflects s.appended ld r clock

theorem mem_take_of_getElem? {l : List Entry} {k n : ℕ} {x : Entry} (lt : k < n)
    (h : l[k]? = some x) : x ∈ l.take n := by
  apply List.mem_of_getElem? (i := k)
  rw [List.getElem?_take_of_lt lt, h]

/-- An answer given for an appended entry that no earlier one exceeds reflects what was appended. -/
theorem Flow.reflects {t : Table} {s : State} (flow : Flow t s) {ld : Load} {r : LoadResponse}
    {clock : List ℤ} {e : Entry} (mem : e ∈ s.appended) (ref : e.ref = ld.ref)
    (answer : ∃ nowMs ∈ clock, r = respond nowMs (recordFromEntry e))
    (newest : ∀ x ∈ s.appended.take ld.before, x.ref = ld.ref → x.fence ≤ e.fence) :
    Reflects s.appended ld r clock := by
  intro k x lt hx xref
  obtain ⟨k', hk'⟩ := List.mem_iff_getElem?.1 mem
  refine ⟨k', e, ?_, hk', ref, answer⟩
  by_contra before
  obtain ⟨hlt, rfl⟩ := List.getElem?_eq_some_iff.1 hx
  obtain ⟨hlt', rfl⟩ := List.getElem?_eq_some_iff.1 hk'
  have older := List.pairwise_iff_getElem.1 flow.ordered k' k hlt' hlt (by omega)
    (by rw [ref, xref])
  exact absurd (newest _ (mem_take_of_getElem? lt hx) xref) (not_le.2 older.2)

theorem LoadInv.lookup {t : Table} {s : State} {ref : EntryRef} {before : ℕ} {nowMs : ℤ}
    (flow : Flow t s) (held : ∀ e ∈ s.appended, Held s e) (le : before ≤ s.appended.length)
    (settled : ∀ x ∈ s.appended.take before, x.ref = ref →
      x ∉ s.ring ∧ ∀ th ∈ s.threads, th.hand ≠ some x) :
    LoadInv s ⟨ref, before, lookup s.pending ref nowMs⟩ := by
  -- nothing that was appended before the call is still on its way
  have arrived : ∀ x ∈ s.appended.take before, x.ref = ref → PendingOrStored s x := by
    intro x hx xref
    obtain ⟨unread, hands⟩ := settled x hx xref
    rcases held x (List.mem_of_mem_take hx) with h | ⟨th, hth, hand⟩ | h
    · exact absurd h unread
    · exact absurd hand (hands th hth)
    · exact h
  refine ⟨le, ?_⟩
  unfold Sidecar.lookup
  cases pending : s.pending.get ref with
  | some e =>
    refine flow.reflects (flow.pending ref e pending).1 (s.pending.ref_of_get pending)
      ⟨nowMs, List.mem_singleton_self _, rfl⟩ fun x hx xref => ?_
    have xref : x.ref = ref := xref
    exact flow.le_pending (List.mem_of_mem_take hx) (by rw [xref]) pending (arrived x hx xref)
  | none =>
    intro x hx xref
    have xref : x.ref = ref := xref
    rcases arrived x hx xref with ⟨e, he, -⟩ | h
    · rw [xref, pending] at he
      cases he
    · exact h

/-- The answer from the table is the one for the row at one of the two readings of the clock. -/
theorem readRow_eq_respond (b : MySQLBackend) {t : Table} {ref : EntryRef} (nowMs nowMs' : ℤ)
    {r : EntryRecord} (row : t.row ref.rowKey = some r) :
    ∃ now ∈ [nowMs, nowMs'], readRow b t ref nowMs nowMs' = respond now r := by
  simp only [readRow, MySQLBackend.loadFromMySQL, row]
  by_cases tombstone : r.tombstone
  · exact ⟨nowMs, by simp, by simp [tombstone, respond]⟩
  · by_cases expired : recordExpiredAt r nowMs
    · exact ⟨nowMs, by simp, by simp [tombstone, expired, respond]⟩
    · exact ⟨nowMs', by simp, by simp [tombstone, expired]⟩

theorem LoadInv.readRow {t : Table} {s : State} {b : MySQLBackend} {ref : EntryRef} {before : ℕ}
    {nowMs nowMs' : ℤ} (flow : Flow t s) (inv : LoadInv s ⟨ref, before, .missed⟩) :
    LoadInv s ⟨ref, before, .answered (readRow b s.table ref nowMs nowMs') [nowMs, nowMs']⟩ := by
  refine ⟨inv.1, ?_⟩
  intro k x lt hx xref
  have stored : ∀ y ∈ s.appended.take before, y.ref = ref →
      s.table.Dominates y.ref.rowKey y.fence := inv.2
  have xref' : x.ref = ref := xref
  have hmem := mem_take_of_getElem? lt hx
  obtain ⟨r, row, le⟩ := stored x hmem xref'
  rcases flow.rows _ r row with initial | ⟨e, he, erow, rfl⟩
  · -- the row the table had at the start is older than `x`
    exact absurd le (not_le.2 (flow.above x (List.mem_of_mem_take hmem) r initial))
  · have eref : e.ref = ref :=
      (flow.ref_eq he (List.mem_of_mem_take hmem) erow).trans xref'
    have answer := readRow_eq_respond b nowMs nowMs'
      (show s.table.row ref.rowKey = some (recordFromEntry e) by rw [← xref', row])
    refine flow.reflects he eref answer (fun y hy yref => ?_) k x lt hx xref
    have yref : y.ref = ref := yref
    obtain ⟨r', row', le'⟩ := stored y hy yref
    rw [yref, ← xref'] at row'
    obtain rfl := Option.some.inj (row.symm.trans row')
    exact le'

/-- More appends and newer rows do not disturb a call. -/
theorem LoadInv.mono {s u : State} {ld : Load} (inv : LoadInv s ld) {l : List Entry}
    (appended : u.appended = s.appended ++ l)
    (rows : ∀ k f, s.table.Dominates k f → u.table.Dominates k f) : LoadInv u ld := by
  obtain ⟨ref, before, pc⟩ := ld
  obtain ⟨le, inv⟩ := inv
  have le : before ≤ s.appended.length := le
  refine ⟨by rw [appended, List.length_append]; exact Nat.le_add_right_of_le le, ?_⟩
  cases pc with
  | called => trivial
  | missed =>
    intro x hx xref
    rw [appended, List.take_append_of_le_length le] at hx
    exact rows _ _ (inv x hx xref)
  | answered r clock =>
    intro k x lt hx xref
    have lt : k < before := lt
    rw [appended, List.getElem?_append_left (by omega)] at hx
    obtain ⟨k', e, le', hk', eref, answer⟩ := inv k x lt hx xref
    refine ⟨k', e, le', ?_, eref, answer⟩
    rw [appended, List.getElem?_append_left (List.getElem?_eq_some_iff.1 hk').1, hk']

theorem loads_step {srv : Server} {t : Table} {s u : State} {a : Action} (ok : Settled srv t s a)
    (flow : Flow t s) (held : ∀ e ∈ s.appended, Held s e) (inv : ∀ ld ∈ s.loads, LoadInv s ld)
    (h : srv.step s a = some u) : ∀ ld ∈ u.loads, LoadInv u ld := by
  cases a with
  | append e =>
    cases h
    exact fun ld hld => (inv ld hld).mono rfl fun _ _ h => h
  | call c =>
    obtain ⟨pc, -, rfl⟩ := Option.map_eq_some_iff.1 h
    exact inv
  | thread i ch =>
    cases Server.step_spec h with
    | thread at_i does =>
      exact fun ld hld => (inv ld hld).mono (List.append_nil _).symm fun _ _ h => does.dominates h
    | quiet no_thread => exact absurd rfl (no_thread i ch)
  | load ref =>
    cases h
    have called : LoadInv s ⟨ref, s.appended.length, .called⟩ := ⟨le_rfl, trivial⟩
    exact forall_mem_snoc inv called
  | lookup i nowMs =>
    simp only [Server.step] at h
    split at h
    · next ref before hi =>
      cases h
      have le := (inv _ (List.mem_of_getElem? hi)).1
      have answered : LoadInv s ⟨ref, before, lookup s.pending ref nowMs⟩ :=
        .lookup flow held le (ok.2.2.2.2 _ hi)
      exact forall_mem_set inv answered
    · cases h
  | readRow i nowMs nowMs' =>
    simp only [Server.step] at h
    split at h
    · next ref before hi =>
      cases h
      have answered : LoadInv s
          ⟨ref, before, .answered (readRow srv.backend s.table ref nowMs nowMs') [nowMs, nowMs']⟩ :=
        .readRow flow (inv _ (List.mem_of_getElem? hi))
      exact forall_mem_set inv answered
    · cases h
  | purge g =>
    cases h
    exact inv
  | purgePending i => exact ok.1.1.elim
  | purgeRows i done => exact ok.1.1.elim
  | cancel =>
    cases h
    exact inv
  | restart =>
    cases h
    simp

/-! ## Runs -/

theorem loads_inv_of_run {srv : Server} {t : Table} {as : List Action} {s : State}
    (run : Run srv.step (Settled srv t) (.start t) as s) : ∀ ld ∈ s.loads, LoadInv s ld := by
  have inv := run.invariant
    (fun s => (∀ th ∈ s.threads, Upserted s.toShared th) ∧ (∀ e ∈ s.appended, Held s e) ∧
      Flow t s ∧ ∀ ld ∈ s.loads, LoadInv s ld) ?_ ?_
  · exact inv.2.2.2
  · refine ⟨?_, by simp [State.start], ?_, by simp [State.start]⟩
    · simp [State.start, runThread, Upserted, Thread.upserted]
    · constructor <;> simp +contextual [State.start, runThread, Thread.hand, Thread.batch]
  · rintro s a u ⟨upserted, held, flow, loads⟩ ok enabled
    exact ⟨upserted_step ok.1.1 upserted enabled, held_step ok.1 upserted held enabled,
      flow_step ok upserted flow enabled, loads_step ok flow held loads enabled⟩

theorem Reflects.notFound {appended : List Entry} {ld : Load} {r : LoadResponse} {clock : List ℤ}
    (h : Reflects appended ld r clock) {k : ℕ} {x : Entry} (lt : k < ld.before)
    (hx : appended[k]? = some x) (ref : x.ref = ld.ref) (delete : x.op = .delete)
    (last : ∀ k' y, k < k' → appended[k']? = some y → y.ref ≠ ld.ref) : r = .notFound := by
  obtain ⟨k', e, le, he, eref, nowMs, -, rfl⟩ := h k x lt hx ref
  rcases Nat.lt_or_eq_of_le le with after | rfl
  · exact absurd eref (last k' e after he)
  · obtain rfl := Option.some.inj (hx.symm.trans he)
    simp [respond, recordFromEntry, delete]

/-- Along a run of settled steps, every answered call reflects the newest entry of its reference
that was appended before the call, or a later one, at one of the call's own readings of the clock;
after a delete with no later write the answer is that nothing is found. -/
theorem load_reflects_appended (srv : Server) (t : Table) {as : List Action} {s : State}
    (run : Run srv.step (Settled srv t) (.start t) as s) :
    ∀ ld ∈ s.loads, ∀ r clock, ld.pc = .answered r clock → Reflects s.appended ld r clock ∧
      ∀ k x, k < ld.before → s.appended[k]? = some x → x.ref = ld.ref → x.op = .delete →
        (∀ k' y, k < k' → s.appended[k']? = some y → y.ref ≠ ld.ref) → r = .notFound := by
  intro ld hld r clock answered
  have inv := (loads_inv_of_run run ld hld).2
  rw [answered] at inv
  exact ⟨inv, fun k x lt hx ref delete last => inv.notFound lt hx ref delete last⟩

/-- One call is answered from the pending set, the next one from the table. -/
def settledReadRun : List Action :=
  let e := setEntry 1 1 1 [97]
  [.append e, .thread 0 .go, .thread 0 .go, .thread 0 .go, .load e.ref, .lookup 0 5,
    .thread 0 .go, .thread 0 .go, .thread 0 (.order [e]), .thread 0 .go, .thread 0 .go,
    .load e.ref, .lookup 1 5, .readRow 1 6 7]

theorem load_reflects_settled_reads :
    ∃ s, Run plainServer.step (Settled plainServer .empty) (.start .empty) settledReadRun s ∧
      let found := .found (recordFromEntry (setEntry 1 1 1 [97]))
      ∃ early late, s.loads = [early, late] ∧ Reflects s.appended early found [5] ∧
        Reflects s.appended late found [6, 7] := by
  obtain ⟨s, run, loads⟩ := Run.exists_of_exec plainServer.step (Settled plainServer .empty)
    (.start .empty) settledReadRun (fun s => s.loads =
      [⟨(setEntry 1 1 1 [97]).ref, 1,
          .answered (.found (recordFromEntry (setEntry 1 1 1 [97]))) [5]⟩,
        ⟨(setEntry 1 1 1 [97]).ref, 1,
          .answered (.found (recordFromEntry (setEntry 1 1 1 [97]))) [6, 7]⟩]) (by decide +kernel)
  refine ⟨s, run, _, _, loads, ?_, ?_⟩
  · exact (load_reflects_appended plainServer .empty run _ (by simp [loads]) _ _ rfl).1
  · exact (load_reflects_appended plainServer .empty run _ (by simp [loads]) _ _ rfl).1

/-- The call comes while the entry is unread in the ring. -/
def unreadReadRun : List Action :=
  let e := setEntry 1 1 1 [97]
  [.append e, .load e.ref, .lookup 0 5, .readRow 0 6 7]

/-- A write that was acknowledged before the call, is not deleted and does not expire is reported as
not found; every other condition holds. -/
theorem load_misses_unread :
    ∃ s, Run plainServer.step
        (fun s a => Lossless s a ∧ AppendsForward .empty s a ∧ PutsAboveRow s a ∧
          Table.WholeUpserts plainServer.backend.dialect s.table (upserting s a))
        (.start .empty) unreadReadRun s ∧
      ∃ ld ∈ s.loads, ∃ clock, ld.pc = .answered .notFound clock ∧
        ¬Reflects s.appended ld .notFound clock := by
  obtain ⟨s, run, loads, appended⟩ := Run.exists_of_exec plainServer.step
    (fun s a => Lossless s a ∧ AppendsForward .empty s a ∧ PutsAboveRow s a ∧
      Table.WholeUpserts plainServer.backend.dialect s.table (upserting s a))
    (.start .empty) unreadReadRun
    (fun s => s.loads = [⟨(setEntry 1 1 1 [97]).ref, 1, .answered .notFound [6, 7]⟩] ∧
      s.appended = [setEntry 1 1 1 [97]]) (by decide +kernel)
  refine ⟨s, run, _, by rw [loads]; exact List.mem_cons_self, _, rfl, fun reflects => ?_⟩
  rw [appended] at reflects
  obtain ⟨k', e, -, he, -, nowMs, -, answer⟩ := reflects 0 _ (by decide) rfl rfl
  obtain rfl := List.mem_singleton.1 (List.mem_of_getElem? he)
  simp [respond, recordFromEntry, recordExpiredAt, setEntry] at answer

end OlricStack.Sidecar
