import OlricStack.Sidecar.LastWrite

/-!
# Draining a partition for a handoff

`DrainPartition` makes one pass over the ring and flushes what it then finds pending of the
partition.  The pass ends at the batch size or at a full pending set, so entries of the partition
behind that point stay in the ring although the call succeeds (`drain_leaves_backlog`).  What the
call brings into the table is exactly what `Covers` says; for a ring in log order that is to reach
every entry of the partition (`drainPartition_complete_iff`).
-/

namespace OlricStack

theorem Pending.entries_putAll (p : Pending) (l : List Entry) :
    (p.putAll l).entries = l.foldl KeyedSet.insert p.entries := by
  induction l generalizing p with
  | nil => rfl
  | cons e l ih => exact ih (p.put e)

/-- The partition of an entry is that of its row. -/
theorem Pending.inPartition_eq_of_rowKey {e e' : Entry} (row : e'.ref.rowKey = e.ref.rowKey)
    (dmap : Bytes) (partitionID partitionCount : ℕ) :
    inPartition dmap partitionID partitionCount e' =
      inPartition dmap partitionID partitionCount e := by
  obtain ⟨sameMap, sameKey⟩ := Prod.mk.inj row
  have sameMap : e'.dmap = e.dmap := sameMap
  have sameKey : e'.hkey = e.hkey := sameKey
  rw [inPartition, inPartition, sameMap, sameKey]

namespace Sidecar

open KeyedSet

/-! ## What one pass reaches -/

/-- A pass over the ring comes to position `i`: the batch is not used up before it, and the pending
set is not full at any position up to it. -/
def Server.Reaches (srv : Server) (p : Pending) (ring : List Entry) (i : ℕ) : Prop :=
  i < ring.length ∧ i < srv.batchSize ∧ ∀ j ≤ i, ¬srv.pendingFull (p.putAll (ring.take j))

theorem Server.drainLoop_reaches {srv : Server} {sh sh' : Shared} {count n : ℕ}
    {ring : List Entry} (room : count < srv.batchSize)
    (h : srv.drainLoop sh count ring = (.ok n, sh')) (i : ℕ) :
    count + i < n ↔ i < ring.length ∧ count + i < srv.batchSize ∧
      ∀ j ≤ i, ¬srv.pendingFull (sh.pending.putAll (ring.take j)) := by
  induction ring generalizing sh count i with
  | nil =>
    obtain ⟨hn, -⟩ := Prod.mk.inj h
    obtain rfl := Except.ok.inj hn
    simp
  | cons payload rest ih =>
    simp only [drainLoop] at h
    split at h
    · next full =>
      obtain ⟨hn, -⟩ := Prod.mk.inj h
      obtain rfl := Except.ok.inj hn
      refine iff_of_false (by omega) ?_
      rintro ⟨-, -, free⟩
      exact free 0 (Nat.zero_le i) (by simpa [Pending.putAll] using full)
    next free =>
    split at h
    · cases h
    next entry good =>
    obtain rfl := eq_of_decode good
    split at h
    · next enough =>
      obtain ⟨hn, -⟩ := Prod.mk.inj h
      obtain rfl := Except.ok.inj hn
      constructor
      · intro lt
        obtain rfl : i = 0 := by omega
        refine ⟨by simp, by omega, fun j hj => ?_⟩
        obtain rfl : j = 0 := by omega
        simpa [Pending.putAll] using free
      · rintro ⟨-, lt, -⟩
        omega
    · next more =>
      cases i with
      | zero =>
        obtain ⟨popped, unread, -, -, all, -⟩ := drainLoop_spec h
        obtain ⟨-, rfl⟩ := all n rfl
        refine iff_of_true (by omega) ⟨by simp, by omega, fun j hj => ?_⟩
        obtain rfl : j = 0 := by omega
        simpa [Pending.putAll] using free
      | succ i =>
        have rest := ih (by omega) h i
        rw [show count + 1 + i = count + (i + 1) by omega] at rest
        rw [rest]
        constructor
        · rintro ⟨short, lt, reach⟩
          refine ⟨by simpa using short, lt, fun j hj => ?_⟩
          cases j with
          | zero => simpa [Pending.putAll] using free
          | succ j => exact reach j (by omega)
        · rintro ⟨short, lt, reach⟩
          exact ⟨by simpa using short, lt, fun j hj => reach (j + 1) (by omega)⟩

/-! ## What the call brings into the table -/

/-- The entry is unread in the ring or pending. -/
def InBacklog (sh : Shared) (e : Entry) : Prop :=
  e ∈ sh.ring ∨ e ∈ sh.pending.entries.toList

/-- Everything of the partition that was in the backlog is dominated by its row afterwards. -/
def Complete (sh sh' : Shared) (dmap : Bytes) (partitionID partitionCount : ℕ) : Prop :=
  ∀ e, InBacklog sh e → Pending.inPartition dmap partitionID partitionCount e →
    sh'.table.Dominates e.ref.rowKey e.fence

/-- Every entry of the partition in the backlog is already dominated, or is not newer than an entry
of its row that is the last of its reference in the pending set and the part of the ring that one
pass reaches. -/
def Covers (srv : Server) (sh : Shared) (dmap : Bytes) (partitionID partitionCount : ℕ) : Prop :=
  ∃ n, (∀ i, i < n ↔ srv.Reaches sh.pending sh.ring i) ∧
    ∀ e, InBacklog sh e → Pending.inPartition dmap partitionID partitionCount e →
      sh.table.Dominates e.ref.rowKey e.fence ∨
        ∃ e', LastOf Entry.ref (sh.pending.entries.toList ++ sh.ring.take n) e' ∧
          e'.ref.rowKey = e.ref.rowKey ∧ e.fence ≤ e'.fence

/-- Entries of one row in the ring have one reference and increasing fences, above those of the
pending entries and of the row. -/
structure InLogOrder (sh : Shared) : Prop where
  ring : sh.ring.Pairwise fun x y =>
    x.ref.rowKey = y.ref.rowKey → x.ref = y.ref ∧ x.fence < y.fence
  pending : ∀ x ∈ sh.pending.entries.toList, ∀ e ∈ sh.ring,
    x.ref.rowKey = e.ref.rowKey → x.ref = e.ref ∧ x.fence < e.fence
  rows : ∀ e ∈ sh.ring, ∀ r ∈ sh.table.row e.ref.rowKey, r.fence < e.fence

/-- A call that succeeds has flushed the entries of the partition that were the last of their
reference in the pending set and the reached part of the ring. -/
theorem Server.drainPartition_ok {srv : Server} {sh sh' : Shared} {dmap : Bytes}
    {partitionID partitionCount : ℕ} {entries : List Entry}
    (h : srv.drainPartition sh dmap partitionID partitionCount entries .succeeds =
      some (.ok (), sh')) :
    ∃ n, (∀ i, i < n ↔ srv.Reaches sh.pending sh.ring i) ∧
      sh'.table = sh.table.upsertAll srv.backend.dialect (entries.map recordFromEntry) ∧
      ∀ e, e ∈ entries ↔ LastOf Entry.ref (sh.pending.entries.toList ++ sh.ring.take n) e ∧
        Pending.inPartition dmap partitionID partitionCount e := by
  simp only [drainPartition] at h
  split_ifs at h
  · cases h
  · cases h
  split at h
  · cases h
  next n drained pass =>
  split_ifs at h with collects
  have flushed : sh'.table = drained.table.upsertAll srv.backend.dialect
      (entries.map recordFromEntry) := by
    generalize hres : (Except.ok () : Except CallError Unit) = res at h
    cases flushEntries_spec h with
    | done => rfl
    | failed _ => cases hres
  obtain ⟨popped, unread, -, -, all, rfl⟩ := drainLoop_spec pass
  obtain ⟨ring, rfl⟩ := all n rfl
  have reach := drainLoop_reaches srv.batchSize_pos pass
  simp only [Nat.zero_add] at reach flushed
  refine ⟨popped.length, reach, flushed, fun e => ?_⟩
  have taken : sh.ring.take popped.length = popped := by rw [← ring, List.take_left]
  rw [collects.mem_iff, List.mem_filter, taken, ← mem_foldl_insert, ← Pending.entries_putAll]

theorem covers_iff_of_inLogOrder {srv : Server} {sh : Shared} (order : InLogOrder sh) {n : ℕ}
    (reach : ∀ i, i < n ↔ srv.Reaches sh.pending sh.ring i) (dmap : Bytes)
    (partitionID partitionCount : ℕ) :
    Covers srv sh dmap partitionID partitionCount ↔
      ∀ i e, sh.ring[i]? = some e → Pending.inPartition dmap partitionID partitionCount e →
        srv.Reaches sh.pending sh.ring i := by
  constructor
  · rintro ⟨n, reach, covered⟩ i e hi part
    have mem := List.mem_of_getElem? hi
    rcases covered e (.inl mem) part with ⟨r, hr, le⟩ | ⟨e', last, row, le⟩
    · exact absurd le (order.rows e mem r hr).not_ge
    rcases List.mem_append.1 last.mem with old | taken
    · exact absurd le (order.pending e' old e mem row).2.not_ge
    -- `e'` is not older than `e`, so it is not before `e` in the ring
    obtain ⟨j, hj⟩ := List.mem_iff_getElem?.1 taken
    obtain ⟨hjn, hj⟩ : j < n ∧ sh.ring[j]? = some e' := by simpa [List.getElem?_take] using hj
    refine (reach i).1 (lt_of_le_of_lt (not_lt.1 fun before => ?_) hjn)
    obtain ⟨hjl, rfl⟩ := List.getElem?_eq_some_iff.1 hj
    obtain ⟨hil, rfl⟩ := List.getElem?_eq_some_iff.1 hi
    exact (List.pairwise_iff_getElem.1 order.ring j i hjl hil before row).2.not_ge le
  · intro reached
    refine ⟨n, reach, fun e backlog part => .inr ?_⟩
    have mem : e ∈ sh.pending.entries.toList ++ sh.ring.take n := by
      rcases backlog with ring | pending
      · obtain ⟨i, hi⟩ := List.mem_iff_getElem?.1 ring
        refine List.mem_append_right _ (List.mem_iff_getElem?.2 ⟨i, ?_⟩)
        rw [List.getElem?_take_of_lt ((reach i).2 (reached i e hi part)), hi]
      · exact List.mem_append_left _ pending
    have ordered : (sh.pending.entries.toList ++ sh.ring.take n).Pairwise fun x y =>
        x.ref = y.ref → x.fence < y.fence := by
      refine List.pairwise_append.2 ⟨?_, ?_, fun x hx y hy ref => ?_⟩
      · exact (List.pairwise_map.1 sh.pending.entries.nodup).imp fun ne ref => absurd ref ne
      · refine (order.ring.sublist (List.take_sublist n _)).imp fun lt ref => (lt ?_).2
        rw [ref]
      · exact (order.pending x hx y (List.mem_of_mem_take hy) (by rw [ref])).2
    obtain ⟨e', last, ref, after⟩ := exists_lastOf Entry.ref ordered mem
    refine ⟨e', last, by rw [ref], ?_⟩
    rcases after with rfl | lt
    · exact le_rfl
    · exact (lt ref.symm).le

/-- A successful call with nothing else running is complete if the backlog is covered, and, where
upserts keep the larger fence, only if it is.  A backlog in log order is covered exactly when the
pass reaches every entry of the partition in the ring. -/
theorem drainPartition_complete_iff (srv : Server) {sh sh' : Shared} {dmap : Bytes}
    {partitionID partitionCount : ℕ} {entries : List Entry}
    (h : srv.drainPartition sh dmap partitionID partitionCount entries .succeeds =
      some (.ok (), sh')) :
    (Covers srv sh dmap partitionID partitionCount →
      Complete sh sh' dmap partitionID partitionCount) ∧
    (srv.backend.dialect = .standard → Complete sh sh' dmap partitionID partitionCount →
      Covers srv sh dmap partitionID partitionCount) ∧
    (InLogOrder sh → (Covers srv sh dmap partitionID partitionCount ↔
      ∀ i e, sh.ring[i]? = some e → Pending.inPartition dmap partitionID partitionCount e →
        srv.Reaches sh.pending sh.ring i)) := by
  obtain ⟨n, reach, table, flushed⟩ := Server.drainPartition_ok h
  refine ⟨?_, ?_, fun order => covers_iff_of_inLogOrder order reach _ _ _⟩
  · rintro ⟨n', reach', covered⟩ e backlog part
    obtain rfl : n' = n := by
      refine le_antisymm (not_lt.1 fun lt => ?_) (not_lt.1 fun lt => ?_)
      · exact lt_irrefl _ ((reach n).2 ((reach' n).1 lt))
      · exact lt_irrefl _ ((reach' n').2 ((reach n').1 lt))
    rw [table]
    rcases covered e backlog part with stored | ⟨e', last, row, le⟩
    · exact stored.upsertAll _ _
    · have mem := (flushed e').2 ⟨last, by rwa [Pending.inPartition_eq_of_rowKey row]⟩
      rw [← row]
      exact (Table.dominates_upsertAll _ _ (List.mem_map_of_mem mem)).mono le
  · intro standard complete
    refine ⟨n, reach, fun e backlog part => ?_⟩
    have stored := complete e backlog part
    rw [table, standard, Table.dominates_upsertAll_standard_iff] at stored
    refine stored.imp_right ?_
    rintro ⟨r, hr, row, le⟩
    obtain ⟨e', he', rfl⟩ := List.mem_map.1 hr
    exact ⟨e', ((flushed e').1 he').1, row, le⟩

instance (srv : Server) (p : Pending) (ring : List Entry) (i : ℕ) :
    Decidable (srv.Reaches p ring i) := by
  unfold Server.Reaches
  infer_instance

/-- Two entries of one key are in the ring; nothing is pending or stored. -/
def twoUnread : Shared where
  ring := [setEntry 1 1 1 [97], setEntry 1 1 2 [97]]
  pending := newPending
  table := .empty
  arrived := []

theorem drainPartition_complete_two :
    ∃ sh', plainServer.drainPartition twoUnread [100] 0 1 [setEntry 1 1 2 [97]] .succeeds =
        some (.ok (), sh') ∧ Complete twoUnread sh' [100] 0 1 := by
  obtain ⟨sh', h⟩ : ∃ sh', plainServer.drainPartition twoUnread [100] 0 1 [setEntry 1 1 2 [97]]
      .succeeds = some (.ok (), sh') := ⟨_, rfl⟩
  obtain ⟨complete, -, covers⟩ := drainPartition_complete_iff plainServer h
  refine ⟨sh', h, complete ((covers ⟨by decide, by decide, by decide⟩).2 fun i e hi _ => ?_)⟩
  have small : i < 2 := (List.getElem?_eq_some_iff.1 hi).1
  have reached : ∀ j < 2, plainServer.Reaches twoUnread.pending twoUnread.ring j := by decide
  exact reached i small

/-- With batches of one, the call succeeds and leaves the newer entry in the ring; its row is
older. -/
theorem drain_leaves_backlog :
    ∃ sh', (newServer (newMySQLBackend .mysql 256) ⟨1, 0, 0⟩).drainPartition twoUnread [100] 0 1
        [setEntry 1 1 1 [97]] .succeeds = some (.ok (), sh') ∧
      setEntry 1 1 2 [97] ∈ twoUnread.ring ∧
      Pending.inPartition [100] 0 1 (setEntry 1 1 2 [97]) ∧
      ¬sh'.table.Dominates (setEntry 1 1 2 [97]).ref.rowKey (setEntry 1 1 2 [97]).fence := by
  refine ⟨_, rfl, ?_⟩
  decide

end Sidecar

end OlricStack
