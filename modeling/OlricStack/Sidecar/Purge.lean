import OlricStack.Sidecar.MissRead

/-!
# Joining a new generation

On the first envelope of a watchdog generation the node asks its sidecar to purge everything below
it (`olricJoiner.Join` in `cmd/olric-node/main.go`).  The purge takes pending entries and rows
alike, so whatever was last written under an older generation is gone, and it does not come back
unless a copy was still on the way (`Joined.not_returned`).
-/

namespace OlricStack.Sidecar

open Transition

/-! ## Join -/

/-- The part of `olricJoiner` that deals with generations. -/
structure Joiner where
  /-- the node has a connection to its sidecar -/
  purger : Bool
  lastPurgedGen : ℤ
deriving DecidableEq, Repr

/-- How the `PurgeBelowGeneration` call made by `Join` ends. -/
inductive PurgeCall
  | purged
  /-- the delete of the rows failed -/
  | rowsFailed
  /-- the call did not reach the sidecar -/
  | notSent
deriving DecidableEq, Repr

/-- The calls `Join` makes on an envelope of generation `envGen`, as the `i`-th purge of the
process, and what it remembers. -/
def Joiner.join (j : Joiner) (envGen : ℤ) (i : ℕ) (c : PurgeCall) : Joiner × List Action :=
  if j.purger && envGen > j.lastPurgedGen then
    let purge (ok : Bool) : List Action :=
      if envGen ≤ 0 then [.purge envGen] else [.purge envGen, .purgePending i, .purgeRows i ok]
    match c with
    | .purged => ({ j with lastPurgedGen := envGen }, purge true)
    | .rowsFailed => (j, purge false)
    | .notSent => (j, [])
  else (j, [])

/-- `Join` comes to purge: there is a sidecar, and the generation is new and valid. -/
def Joiner.Purges (j : Joiner) (envGen : ℤ) : Prop :=
  j.purger = true ∧ j.lastPurgedGen < envGen ∧ 0 < envGen

instance (j : Joiner) (envGen : ℤ) : Decidable (j.Purges envGen) := by
  unfold Joiner.Purges
  infer_instance

/-- A whole `LoadFromMySQL` call, its two looks at the given instants. -/
def Server.loadFromMySQL (srv : Server) (s : State) (ref : EntryRef) (nowMs nowMs' : ℤ) :
    LoadResponse :=
  match lookup s.pending ref nowMs with
  | .answered r _ => r
  | _ => readRow srv.backend s.table ref nowMs nowMs'

/-- Draining and flushing only. -/
def DrainsOrFlushes (_ : State) : Action → Prop
  | .call _ => True
  | .thread _ _ => True
  | .cancel => True
  | _ => False

/-! ## After a purge -/

/-- Nothing of the row below generation `g` is pending or stored. -/
def PurgedBelow (g : ℤ) (k : RowKey) (s : State) : Prop :=
  (∀ ref, ref.rowKey = k → ∀ e ∈ s.pending.get ref, g ≤ e.generation) ∧
    ∀ r ∈ s.table.row k, g ≤ r.generation

/-- Nothing of the row below generation `g` is still to be put or upserted. -/
def NothingOnTheWay (g : ℤ) (k : RowKey) (s : State) : Prop :=
  (∀ e ∈ s.ring, e.ref.rowKey = k → g ≤ e.generation) ∧
    ∀ th ∈ s.threads, (∀ e ∈ th.hand, e.ref.rowKey = k → g ≤ e.generation) ∧
      ∀ e ∈ th.batch, e.ref.rowKey = k → g ≤ e.generation

/-- What is returned after a purge has a generation of at least `g`. -/
theorem PurgedBelow.load_ne {srv : Server} {s : State} {g : ℤ} {e : Entry}
    (purged : PurgedBelow g e.ref.rowKey s) (below : e.generation < g) (nowMs nowMs' : ℤ) :
    srv.loadFromMySQL s e.ref nowMs nowMs' ≠ .found (recordFromEntry e) := by
  have found {now : ℤ} {r : EntryRecord} (high : g ≤ r.generation) :
      respond now r ≠ .found (recordFromEntry e) := by
    unfold respond
    split_ifs
    · simp
    · rintro ⟨⟩
      exact absurd below (not_lt.2 high)
  unfold Server.loadFromMySQL lookup
  cases pending : s.pending.get e.ref with
  | some x => exact found (purged.1 e.ref rfl x pending)
  | none =>
    cases row : s.table.row e.ref.rowKey with
    | none => simp [readRow, MySQLBackend.loadFromMySQL, row]
    | some r =>
      obtain ⟨now, -, answer⟩ := readRow_eq_respond srv.backend nowMs nowMs' row
      simp only [answer]
      exact found (purged.2 r row)

/-- What `Join` leaves, apart from the record of purge calls. -/
inductive Joined (j : Joiner) (g : ℤ) (s : State) : PurgeCall → State → Prop
  | spared {c : PurgeCall} {purges : List Purge} (none : ¬j.Purges g ∨ c = .notSent) :
    Joined j g s c { s with purges := purges }
  | rowsFailed {purges : List Purge} (some : j.Purges g) :
    Joined j g s .rowsFailed
      { s with pending := (s.pending.purgeBelow g).2, purges := purges }
  | purged {purges : List Purge} (some : j.Purges g) :
    Joined j g s .purged
      { s with
        pending := (s.pending.purgeBelow g).2
        table := s.table.purgeBelowGeneration g
        purges := purges }

theorem joined_of_run {srv : Server} {j : Joiner} {s u : State} {g : ℤ} {c : PurgeCall}
    (run : Run srv.step anyAction s (j.join g s.purges.length c).2 u) : Joined j g s c u := by
  have evaluated := run.exec_eq
  unfold Joiner.join at evaluated
  by_cases asks : (j.purger && decide (g > j.lastPurgedGen)) = true
  · rw [if_pos asks] at evaluated
    simp only [Bool.and_eq_true, decide_eq_true_eq] at asks
    by_cases pos : g ≤ 0
    · have none : ¬j.Purges g := fun h => absurd h.2.2 (not_lt.2 pos)
      cases c with
      | notSent =>
        cases evaluated
        exact .spared (.inl none)
      | _ =>
        simp only [if_pos pos, exec, anyAction, if_true, Server.step, Option.bind_some,
          Option.some.injEq] at evaluated
        rw [← evaluated]
        exact .spared (.inl none)
    · have purges : j.Purges g := ⟨asks.1, asks.2, not_le.1 pos⟩
      cases c with
      | notSent =>
        cases evaluated
        exact .spared (.inr rfl)
      | _ =>
        simp only [if_neg pos, exec, anyAction, if_true, Server.step, Option.bind_some,
          List.getElem?_concat_length, List.set_append_right _ _ le_rfl, Nat.sub_self,
          List.set_cons_zero, Option.some.injEq] at evaluated
        rw [← evaluated]
        first
          | exact .rowsFailed purges
          | exact .purged purges
  · rw [if_neg asks] at evaluated
    cases evaluated
    refine .spared (.inl fun h => asks ?_)
    simp [h.1, h.2.1]

theorem Joined.purgedBelow {j : Joiner} {s u : State} {g : ℤ} (joined : Joined j g s .purged u)
    (some : j.Purges g) (k : RowKey) : PurgedBelow g k u := by
  cases joined with
  | spared none => exact absurd some (none.resolve_right (by simp))
  | purged =>
    constructor
    · intro ref _ e he
      rw [Option.mem_def, s.pending.get_purgeBelow, Option.filter_eq_some_iff] at he
      simpa using he.2
    · intro r hr
      simp only [Table.purgeBelowGeneration, if_neg (not_le.2 some.2.2)] at hr
      simpa using (Option.filter_eq_some_iff.1 hr).2

/-! ## Draining and flushing afterwards -/

/-- Upserting records of generation at least `g` leaves the row so. -/
theorem le_generation_upsertAll {d : Dialect} {t : Table} {l : List EntryRecord} {k : RowKey}
    {g : ℤ} (old : ∀ r ∈ t.row k, g ≤ r.generation)
    (new : ∀ n ∈ l, n.rowKey = k → g ≤ n.generation) :
    ∀ r ∈ (t.upsertAll d l).row k, g ≤ r.generation := by
  induction l generalizing t with
  | nil => exact old
  | cons n l ih =>
    refine ih (fun r hr => ?_) fun m hm => new m (List.mem_cons_of_mem _ hm)
    by_cases hk : k = n.rowKey
    · subst hk
      rw [Option.mem_def, t.row_upsert_self d n] at hr
      cases hr
      have high := new n List.mem_cons_self rfl
      cases row : t.row n.rowKey with
      | none => exact high
      | some r =>
        have le := (le_max_right _ _).trans (max_fence_le_onConflict d r n)
        exact high.trans (Fence.generation_le_of_le le)
    · rw [t.row_upsert_of_ne d hk] at hr
      exact old r hr

/-- Once nothing of the row below `g` is pending, stored or on the way, that remains so. -/
structure Gone (g : ℤ) (k : RowKey) (s : State) : Prop where
  purged : PurgedBelow g k s
  onTheWay : NothingOnTheWay g k s

namespace Gone

variable {g : ℤ} {k : RowKey} {s : State}

theorem move (gone : Gone g k s) {i : ℕ} {th : Thread}
    (hand : ∀ e ∈ th.hand, e.ref.rowKey = k → g ≤ e.generation)
    (batch : ∀ e ∈ th.batch, e.ref.rowKey = k → g ≤ e.generation) :
    Gone g k { s with threads := s.threads.set i th } where
  purged := gone.purged
  onTheWay := ⟨gone.onTheWay.1, forall_mem_set gone.onTheWay.2 ⟨hand, batch⟩⟩

theorem put (gone : Gone g k s) {x : Entry} (high : x.ref.rowKey = k → g ≤ x.generation)
    (arrived : List Entry) :
    Gone g k { s with pending := s.pending.put x, arrived := arrived } where
  purged := by
    refine ⟨fun ref row e he => ?_, gone.purged.2⟩
    by_cases same : ref = x.ref
    · subst same
      obtain rfl : x = e := by simpa using he
      exact high row
    · rw [Option.mem_def, s.pending.get_put_of_ne same] at he
      exact gone.purged.1 ref row e he
  onTheWay := gone.onTheWay

theorem upsert (gone : Gone g k s) {d : Dialect} {l : List EntryRecord}
    (high : ∀ n ∈ l, n.rowKey = k → g ≤ n.generation) :
    Gone g k { s with table := s.table.upsertAll d l } where
  purged := ⟨gone.purged.1, le_generation_upsertAll gone.purged.2 high⟩
  onTheWay := gone.onTheWay

theorem thread {srv : Server} {i : ℕ} {ch : Choice} {th th' : Thread} {sh' : Shared}
    (gone : Gone g k s) (at_i : s.threads[i]? = some th)
    (does : ThreadStep srv s.toShared th ch sh' th') :
    Gone g k { s with toShared := sh', threads := s.threads.set i th' } := by
  obtain ⟨hand, batch⟩ := gone.onTheWay.2 th (List.mem_of_getElem? at_i)
  cases does with
  | move _ to_plain => exact gone.move (by simp [(to_plain _).1]) (by simp [(to_plain _).2.1])
  | @pop _ _ payload rest unread =>
    have ring := gone.onTheWay.1
    rw [unread] at ring
    have shorter : Gone g k { s with ring := rest } :=
      ⟨gone.purged, fun e he => ring e (List.mem_cons_of_mem _ he), gone.onTheWay.2⟩
    refine shorter.move (fun e he => ?_) (by simp [Thread.batch])
    cases he
    exact ring payload List.mem_cons_self
  | reject _ => exact gone.move (by simp [Thread.hand]) (by simp [Thread.batch])
  | @put _ _ x _ _ to_plain =>
    exact (gone.put (hand x rfl) (s.arrived ++ [x])).move (by simp [(to_plain _).1])
      (by simp [(to_plain _).2.1])
  | collect copied =>
    exact gone.move (by simp [Thread.hand]) fun e he row =>
      gone.purged.1 e.ref row e (copied e he)
  | @upsert _ _ entries =>
    refine (gone.upsert fun n hn row => ?_).move (by simp [Thread.hand]) batch
    obtain ⟨e, he, rfl⟩ := List.mem_map.1 hn
    exact batch e he row
  | fail sub =>
    refine (gone.upsert fun n hn row => ?_).move (by simp [Thread.hand]) (by simp [Thread.batch])
    obtain ⟨e, he, rfl⟩ := List.mem_map.1 (sub.subset hn)
    exact batch e he row
  | @drop _ _ x rest =>
    have dropped : Gone g k { s with pending := s.pending.drop x.ref x.ownerSeq } :=
      ⟨⟨fun ref row e he => gone.purged.1 ref row e (s.pending.get_of_get_drop he),
        gone.purged.2⟩, gone.onTheWay⟩
    exact dropped.move (by simp [Thread.hand]) fun e he => batch e (List.mem_cons_of_mem _ he)

theorem step {srv : Server} {u : State} {a : Action} (gone : Gone g k s)
    (ok : DrainsOrFlushes s a) (h : srv.step s a = some u) : Gone g k u := by
  cases Server.step_spec h with
  | thread at_i does => exact gone.thread at_i does
  | append => exact ok.elim
  | @call c pc plain =>
    exact ⟨gone.purged, gone.onTheWay.1,
      forall_mem_snoc gone.onTheWay.2 (by simp [(plain _).1, (plain _).2.1])⟩
  | quiet _ => exact ⟨gone.purged, gone.onTheWay⟩
  | purgePending => exact ok.elim
  | purgeRows => exact ok.elim
  | restart => exact ok.elim

end Gone

/-- After a purge that succeeded, an entry below the generation is not returned even after further
draining and flushing, unless a copy of its row was still on the way. -/
theorem Joined.not_returned {srv : Server} {j : Joiner} {s u v : State} {g : ℤ} {e : Entry}
    {as : List Action} (joined : Joined j g s .purged u) (some : j.Purges g)
    (below : e.generation < g) (nothing : NothingOnTheWay g e.ref.rowKey s)
    (run : Run srv.step DrainsOrFlushes u as v) (nowMs nowMs' : ℤ) :
    srv.loadFromMySQL v e.ref nowMs nowMs' ≠ .found (recordFromEntry e) := by
  have gone : Gone g e.ref.rowKey u := by
    refine ⟨joined.purgedBelow some _, ?_⟩
    cases joined with
    | spared _ => exact nothing
    | purged _ => exact nothing
  have still := run.invariant (Gone g e.ref.rowKey) gone
    fun t a u gone ok enabled => gone.step ok enabled
  exact still.purged.load_ne below nowMs nowMs'

end OlricStack.Sidecar
