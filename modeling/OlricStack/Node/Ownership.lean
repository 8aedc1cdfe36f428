import Mathlib.Data.List.Pairwise
import OlricStack.Node.Publish
import OlricStack.Store.Table

/-!
# Writes to one key across owners

Several nodes, each with its own sequencer and writer id, own a key one after the other.  The rows
in the table are ordered by fence; the writes are ordered by who owned the key when.  The two orders
agree exactly when no owner starts to write in the window of the previous one with a counter that is
behind (`row_is_last_write_iff`): a sequencer counts for one node, not for one key
(`new_owner_loses`).
-/

namespace OlricStack.Node

open Transition

/-- The nodes of a cluster as far as one key is concerned. -/
structure Cluster where
  sequencers : ℕ → Sequencer
  owner : ℕ
  /-- the acknowledged writes to the key, in order -/
  writes : List Entry
  unflushed : List Entry
  table : Table

/-- What the nodes do with a key. -/
inductive KeyAction
  /-- node `n` stamps a write to another key -/
  | stamp (n : ℕ) (generation epoch : ℤ)
  /-- the owner writes the key -/
  | write (generation epoch : ℤ) (kind : Op) (entry : Option StoredEntry) (nowUnixNano : ℤ)
  /-- an entry of the key is flushed, possibly once more -/
  | flush (w : Entry)
  /-- ownership moves to node `n`, after a drain on the old owner -/
  | handoff (n : ℕ)
deriving DecidableEq, Repr

section Step

variable (writerID : ℕ → Bytes) (key : DurableOperation)

/-- The entry the owner logs with its sequencer at `q`. -/
def written (s : Cluster) (kind : Op) (entry : Option StoredEntry) (q : Sequencer)
    (nowUnixNano : ℤ) : Entry :=
  logEntry (writerID s.owner) kind { key with entry := entry } q nowUnixNano

/-- One action of a node or a sidecar. -/
def keyStep (s : Cluster) : KeyAction → Option Cluster
  | .stamp n generation epoch =>
    match (s.sequencers n).stamp generation epoch with
    | .ok q => some { s with sequencers := Function.update s.sequencers n q }
    | .error _ => some s
  | .write generation epoch kind entry nowUnixNano =>
    match (s.sequencers s.owner).stamp generation epoch with
    | .ok q =>
      let w := written writerID key s kind entry q nowUnixNano
      some { s with
        sequencers := Function.update s.sequencers s.owner q
        writes := s.writes ++ [w]
        unflushed := s.unflushed ++ [w] }
    | .error _ => some s
  | .flush w =>
    if w ∈ s.writes then
      some { s with
        table := s.table.upsert .standard (recordFromEntry w)
        unflushed := s.unflushed.filter (· ≠ w) }
    else none
  | .handoff n => if s.unflushed = [] then some { s with owner := n } else none

/-- No node has stamped anything and the key has no row. -/
def Cluster.start (owner : ℕ) (t : Table) : Cluster := ⟨fun _ => .new, owner, [], [], t⟩

/-- Nothing happens but flushes. -/
def OnlyFlushes (_ : Cluster) : KeyAction → Prop
  | .flush _ => True
  | _ => False

/-- However the remaining entries are flushed, the row is then the last write. -/
def RowIsLast (s : Cluster) : Prop :=
  ∀ as u, Run (keyStep writerID key) OnlyFlushes s as u → u.unflushed = [] →
    ∀ w ∈ s.writes.getLast?, u.table.row (key.dmap, key.hkey) = some (recordFromEntry w)

/-- After the action the row comes to be the last write. -/
def KeepsLast (s : Cluster) (a : KeyAction) : Prop :=
  ∀ u, keyStep writerID key s a = some u → RowIsLast writerID key u

end Step

/-- The window of a write that is going to be acknowledged. -/
def writing (s : Cluster) : KeyAction → Option (ℤ × ℤ)
  | .write generation epoch _ _ _ =>
    if ((s.sequencers s.owner).stamp generation epoch).isOk then some (generation, epoch) else none
  | _ => none

/-- What a step does: a stamp that is refused changes nothing. -/
inductive KeyStep (writerID : ℕ → Bytes) (key : DurableOperation) (s : Cluster) :
    KeyAction → Cluster → Prop
  | stamp {n generation epoch q} (ok : (s.sequencers n).stamp generation epoch = .ok q) :
    KeyStep writerID key s (.stamp n generation epoch)
      { s with sequencers := Function.update s.sequencers n q }
  | write {generation epoch kind entry nowUnixNano q}
      (ok : (s.sequencers s.owner).stamp generation epoch = .ok q) :
    KeyStep writerID key s (.write generation epoch kind entry nowUnixNano)
      { s with
        sequencers := Function.update s.sequencers s.owner q
        writes := s.writes ++ [written writerID key s kind entry q nowUnixNano]
        unflushed := s.unflushed ++ [written writerID key s kind entry q nowUnixNano] }
  | refused {a} (quiet : writing s a = none) : KeyStep writerID key s a s
  | flush {w} (mem : w ∈ s.writes) :
    KeyStep writerID key s (.flush w)
      { s with
        table := s.table.upsert .standard (recordFromEntry w)
        unflushed := s.unflushed.filter (· ≠ w) }
  | handoff {n} (drained : s.unflushed = []) :
    KeyStep writerID key s (.handoff n) { s with owner := n }

theorem keyStep_spec {writerID : ℕ → Bytes} {key : DurableOperation} {s u : Cluster} {a : KeyAction}
    (h : keyStep writerID key s a = some u) : KeyStep writerID key s a u := by
  cases a with
  | stamp n generation epoch =>
    simp only [keyStep] at h
    split at h <;> cases h
    · next ok => exact .stamp ok
    · exact .refused rfl
  | write generation epoch kind entry nowUnixNano =>
    simp only [keyStep] at h
    split at h <;> cases h
    · next ok => exact .write ok
    · next e refused => exact .refused (by simp [writing, refused, Except.isOk, Except.toBool])
  | flush w =>
    simp only [keyStep] at h
    split_ifs at h with mem
    cases h
    exact .flush mem
  | handoff n =>
    simp only [keyStep] at h
    split_ifs at h with drained
    cases h
    exact .handoff drained

/-- Windows do not go back from one write to the next. -/
def Leased (s : Cluster) (a : KeyAction) : Prop :=
  ∀ f ∈ writing s a, ∀ w ∈ s.writes.getLast?, w.fence.window ≤ toLex f

/-- A write in the window of the last write of another node has a greater owner sequence, or the
same one and a greater writer id. -/
def CounterAhead (writerID : ℕ → Bytes) (s : Cluster) (a : KeyAction) : Prop :=
  ∀ f ∈ writing s a, ∀ w ∈ s.writes.getLast?,
    w.writerID ≠ writerID s.owner → w.fence.window = toLex f →
      w.ownerSeq ≤ (s.sequencers s.owner).counted f.1 f.2 ∨
        w.ownerSeq = (s.sequencers s.owner).counted f.1 f.2 + 1 ∧ w.writerID < writerID s.owner

instance (s : Cluster) (a : KeyAction) : Decidable (Leased s a) := by
  unfold Leased
  infer_instance

instance (writerID : ℕ → Bytes) (s : Cluster) (a : KeyAction) :
    Decidable (CounterAhead writerID s a) := by
  unfold CounterAhead
  infer_instance

/-! ## One node's counter -/

/-- The sequencer has counted at least up to the entry. -/
def CountedUpTo (q : Sequencer) (w : Entry) : Prop :=
  w.fence.window ≤ q.window ∧ (w.fence.window = q.window → w.ownerSeq ≤ q.seq)

theorem counted_of_window_eq {q : Sequencer} {generation epoch : ℤ}
    (h : q.window = toLex (generation, epoch)) : q.counted generation epoch = q.seq := by
  obtain ⟨rfl, rfl⟩ : q.generation = generation ∧ q.epoch = epoch := by
    simpa [Sequencer.window] using h
  simp [Sequencer.counted]

/-- The fence of an entry is in the window of its stamp. -/
theorem window_logEntry (writerID : Bytes) (kind : Op) (op : DurableOperation) (q : Sequencer)
    (nowUnixNano : ℤ) : (logEntry writerID kind op q nowUnixNano).fence.window = q.window := rfl

section Stamp

variable {q q' : Sequencer} {generation epoch : ℤ}

/-- Counting goes on. -/
theorem CountedUpTo.stamp {w : Entry} (h : CountedUpTo q w)
    (ok : q.stamp generation epoch = .ok q') : CountedUpTo q' w := by
  obtain ⟨rfl, -, -, forward⟩ := Sequencer.stamp_ok ok
  refine ⟨h.1.trans forward, fun same => ?_⟩
  have still : q.window = toLex (generation, epoch) :=
    le_antisymm forward (same.symm.le.trans h.1)
  simp only [counted_of_window_eq still]
  have := h.2 (same.trans still.symm)
  omega

/-- What a node stamps is newer than everything it has counted. -/
theorem CountedUpTo.lt_logEntry {w : Entry} (h : CountedUpTo q w)
    (ok : q.stamp generation epoch = .ok q') (writerID : Bytes) (kind : Op) (op : DurableOperation)
    (nowUnixNano : ℤ) : w.fence < (logEntry writerID kind op q' nowUnixNano).fence := by
  obtain ⟨rfl, -, -, forward⟩ := Sequencer.stamp_ok ok
  rcases lt_or_eq_of_le (h.1.trans forward) with lt | same
  · exact Fence.lt_of_window_lt lt
  · have still : q.window = toLex (generation, epoch) :=
      le_antisymm forward (same.symm.le.trans h.1)
    have le := h.2 (same.trans still.symm)
    refine (Fence.lt_iff_of_window_eq same).2 (.inl ?_)
    show w.ownerSeq < q.counted generation epoch + 1
    rw [counted_of_window_eq still]
    omega

end Stamp

/-! ## The invariant -/

section Invariant

variable {writerID : ℕ → Bytes} {key : DurableOperation}

/-- Entries are of the key, each counted by the node that wrote it, and either flushed or not. -/
structure Tracked (writerID : ℕ → Bytes) (key : DurableOperation) (s : Cluster) : Prop where
  counted : ∀ w ∈ s.writes, ∃ n, w.writerID = writerID n ∧ CountedUpTo (s.sequencers n) w
  rowKey : ∀ w ∈ s.writes, w.ref.rowKey = (key.dmap, key.hkey)
  unflushed : ∀ w ∈ s.unflushed, w ∈ s.writes
  settled : ∀ w ∈ s.writes, w ∈ s.unflushed ∨ s.table.Dominates (key.dmap, key.hkey) w.fence
  rows : ∀ r ∈ s.table.row (key.dmap, key.hkey), ∃ w ∈ s.writes, r = recordFromEntry w

namespace Tracked

variable {s : Cluster}

theorem stamp (inv : Tracked writerID key s) {n : ℕ} {q : Sequencer} {generation epoch : ℤ}
    (ok : (s.sequencers n).stamp generation epoch = .ok q) :
    Tracked writerID key { s with sequencers := Function.update s.sequencers n q } :=
  { inv with
    counted := by
      intro w hw
      obtain ⟨m, id, counted⟩ := inv.counted w hw
      refine ⟨m, id, ?_⟩
      by_cases same : m = n
      · subst same
        simp only [Function.update_self]
        exact counted.stamp ok
      · simp only [Function.update_of_ne same]
        exact counted }

theorem write (inv : Tracked writerID key s) (kind : Op) (entry : Option StoredEntry)
    (nowUnixNano : ℤ) {q : Sequencer} {generation epoch : ℤ}
    (ok : (s.sequencers s.owner).stamp generation epoch = .ok q) :
    Tracked writerID key { s with
      sequencers := Function.update s.sequencers s.owner q
      writes := s.writes ++ [written writerID key s kind entry q nowUnixNano]
      unflushed := s.unflushed ++ [written writerID key s kind entry q nowUnixNano] } where
  counted := by
    refine forall_mem_snoc (inv.stamp ok).counted ⟨s.owner, rfl, ?_⟩
    simp only [Function.update_self]
    exact ⟨le_rfl, fun _ => le_rfl⟩
  rowKey := forall_mem_snoc inv.rowKey rfl
  unflushed w hw := List.mem_append.2 ((List.mem_append.1 hw).imp_left (inv.unflushed w))
  settled w hw := by
    rcases List.mem_append.1 hw with hw | hw
    · exact (inv.settled w hw).imp_left (List.mem_append_left _)
    · exact .inl (List.mem_append_right _ hw)
  rows r hr := (inv.rows r hr).imp fun _ h => ⟨List.mem_append_left _ h.1, h.2⟩

theorem flush (inv : Tracked writerID key s) {w : Entry} (mem : w ∈ s.writes) :
    Tracked writerID key { s with
      table := s.table.upsert .standard (recordFromEntry w)
      unflushed := s.unflushed.filter (· ≠ w) } where
  counted := inv.counted
  rowKey := inv.rowKey
  unflushed x hx := inv.unflushed x (List.mem_filter.1 hx).1
  settled x hx := by
    by_cases same : x = w
    · subst same
      refine .inr ?_
      rw [← inv.rowKey x mem]
      exact s.table.dominates_upsert _ (recordFromEntry x)
    · refine (inv.settled x hx).imp (fun h => ?_) fun h => h.upsert _ _
      exact List.mem_filter.2 ⟨h, by simpa using same⟩
  rows r hr := by
    rcases Table.mem_row_upsertAll_standard (l := [recordFromEntry w]) hr with old | ⟨new, -⟩
    · exact inv.rows r old
    · exact ⟨w, mem, List.mem_singleton.1 new⟩

theorem step (inv : Tracked writerID key s) {a : KeyAction} {u : Cluster}
    (h : keyStep writerID key s a = some u) : Tracked writerID key u := by
  cases keyStep_spec h with
  | stamp ok => exact inv.stamp ok
  | write ok => exact inv.write _ _ _ ok
  | refused _ => exact inv
  | flush mem => exact inv.flush mem
  | handoff _ => exact ⟨inv.counted, inv.rowKey, inv.unflushed, inv.settled, inv.rows⟩

end Tracked

/-- Only an acknowledged write changes the writes. -/
theorem writes_step {s u : Cluster} {a : KeyAction} (quiet : writing s a = none)
    (h : keyStep writerID key s a = some u) : u.writes = s.writes := by
  cases keyStep_spec h with
  | write ok => simp [writing, ok, Except.isOk, Except.toBool] at quiet
  | stamp _ => rfl
  | refused _ => rfl
  | flush _ => rfl
  | handoff _ => rfl

/-- Flushing changes neither the writes nor what is known of them. -/
theorem tracked_of_flushes {s u : Cluster} {as : List KeyAction} (inv : Tracked writerID key s)
    (run : Run (keyStep writerID key) OnlyFlushes s as u) :
    Tracked writerID key u ∧ u.writes = s.writes := by
  apply run.invariant fun u => Tracked writerID key u ∧ u.writes = s.writes
  · exact ⟨inv, rfl⟩
  · rintro t a u ⟨inv, writes⟩ ok enabled
    refine ⟨inv.step enabled, ?_⟩
    cases a with
    | flush w => exact (writes_step rfl enabled).trans writes
    | _ => exact ok.elim

/-- Everything can be flushed. -/
theorem exists_flush_all {s : Cluster} (inv : Tracked writerID key s) :
    ∃ as u, Run (keyStep writerID key) OnlyFlushes s as u ∧ u.unflushed = [] := by
  generalize hn : s.unflushed.length = n
  induction n using Nat.strong_induction_on generalizing s with
  | _ n ih =>
    cases hl : s.unflushed with
    | nil => exact ⟨[], s, .nil, hl⟩
    | cons w rest =>
      have mem := inv.unflushed w (by simp [hl])
      have shorter : (s.unflushed.filter (· ≠ w)).length < n := by
        rw [← hn, List.length_filter_lt_length_iff_exists]
        exact ⟨w, by simp [hl], by simp⟩
      obtain ⟨as, u, run, done⟩ := ih _ shorter (inv.flush mem) rfl
      exact ⟨.flush w :: as, u, .cons _ trivial (by simp only [keyStep, if_pos mem]) run, done⟩

/-- With fences that increase along the writes, the row ends up as the last one. -/
theorem Tracked.rowIsLast {s : Cluster} (inv : Tracked writerID key s)
    (increasing : s.writes.Pairwise fun x y => x.fence < y.fence) : RowIsLast writerID key s := by
  intro as u run done w hw
  obtain ⟨inv', writes⟩ := tracked_of_flushes inv run
  obtain ⟨init, hinit⟩ := List.getLast?_eq_some_iff.1 hw
  have mem : w ∈ u.writes := by simp [writes, hinit]
  obtain ⟨r, hr, le⟩ := (inv'.settled w mem).resolve_left (by simp [done])
  obtain ⟨x, hx, rfl⟩ := inv'.rows r hr
  rw [hr]
  rw [writes, hinit, List.mem_append] at hx
  rcases hx with hx | hx
  · rw [hinit, List.pairwise_append] at increasing
    exact absurd le (not_le.2 (increasing.2.2 x hx w (by simp)))
  · rw [List.mem_singleton.1 hx]

/-- After an acknowledged write the row comes to be the last write exactly when its fence is above
those of all writes before. -/
theorem keepsLast_write_iff (inj : Function.Injective writerID) {s : Cluster}
    (inv : Tracked writerID key s) (increasing : s.writes.Pairwise fun x y => x.fence < y.fence)
    {generation epoch : ℤ} {q : Sequencer} (kind : Op) (entry : Option StoredEntry)
    (nowUnixNano : ℤ) (ok : (s.sequencers s.owner).stamp generation epoch = .ok q) :
    KeepsLast writerID key s (.write generation epoch kind entry nowUnixNano) ↔
      ∀ x ∈ s.writes, x.fence < (written writerID key s kind entry q nowUnixNano).fence := by
  have inv' := inv.write kind entry nowUnixNano ok
  constructor
  · intro keeps x hx
    obtain ⟨as, v, run, done⟩ := exists_flush_all inv'
    have row := keeps _ (by simp only [keyStep, ok]) as v run done _ List.getLast?_concat
    obtain ⟨tracked, writes⟩ := tracked_of_flushes inv' run
    have mem : x ∈ v.writes := by
      rw [writes]
      exact List.mem_append_left _ hx
    obtain ⟨r, hr, le⟩ := (tracked.settled x mem).resolve_left (by simp [done])
    obtain rfl := Option.some.inj (row.symm.trans hr)
    -- no earlier write has the same fence
    obtain ⟨n, id, counted⟩ := inv.counted x hx
    by_cases own : n = s.owner
    · subst own
      exact counted.lt_logEntry ok _ _ _ _
    · refine lt_of_le_of_ne le fun same => own (inj ?_)
      rw [← id]
      exact congrArg Fence.writerID same
  · intro newer u hu
    simp only [keyStep, ok] at hu
    cases hu
    refine inv'.rowIsLast (List.pairwise_append.2 ⟨increasing, List.pairwise_singleton _ _, ?_⟩)
    intro x hx y hy
    rw [List.mem_singleton.1 hy]
    exact newer x hx

/-- The owner's write and a write in its window compare by sequence and writer. -/
theorem lt_written_iff_of_window {s : Cluster} {generation epoch : ℤ} {q : Sequencer} (kind : Op)
    (entry : Option StoredEntry) (nowUnixNano : ℤ)
    (ok : (s.sequencers s.owner).stamp generation epoch = .ok q) {w : Entry}
    (same : w.fence.window = toLex (generation, epoch)) :
    w.fence < (written writerID key s kind entry q nowUnixNano).fence ↔
      w.ownerSeq ≤ (s.sequencers s.owner).counted generation epoch ∨
        w.ownerSeq = (s.sequencers s.owner).counted generation epoch + 1 ∧
          w.writerID < writerID s.owner := by
  have hq := (Sequencer.stamp_ok ok).1
  rw [Fence.lt_iff_of_window_eq (same.trans (by rw [written, window_logEntry, hq]; rfl)),
    ← Int.lt_add_one_iff, written, logEntry, hq]
  rfl

/-- The new write is above all others exactly when the counter of its node is ahead. -/
theorem lt_written_iff (inj : Function.Injective writerID) {s : Cluster}
    (inv : Tracked writerID key s) (increasing : s.writes.Pairwise fun x y => x.fence < y.fence)
    {generation epoch : ℤ} {q : Sequencer} (kind : Op) (entry : Option StoredEntry)
    (nowUnixNano : ℤ) (ok : (s.sequencers s.owner).stamp generation epoch = .ok q)
    (leased : ∀ w ∈ s.writes.getLast?, w.fence.window ≤ toLex (generation, epoch)) :
    (∀ x ∈ s.writes, x.fence < (written writerID key s kind entry q nowUnixNano).fence) ↔
      ∀ w ∈ s.writes.getLast?, w.writerID ≠ writerID s.owner →
        w.fence.window = toLex (generation, epoch) →
          w.ownerSeq ≤ (s.sequencers s.owner).counted generation epoch ∨
            w.ownerSeq = (s.sequencers s.owner).counted generation epoch + 1 ∧
              w.writerID < writerID s.owner := by
  constructor
  · intro newer w hw _ same
    rw [← lt_written_iff_of_window kind entry nowUnixNano ok same]
    exact newer w (List.mem_of_getLast? hw)
  · intro ahead x hx
    -- the last write is above the others, so it is the one to compare with
    obtain ⟨w, hw⟩ := Option.isSome_iff_exists.1
      (List.getLast?_isSome.2 (List.ne_nil_of_mem hx))
    have last : w.fence < (written writerID key s kind entry q nowUnixNano).fence := by
      obtain ⟨n, id, counted⟩ := inv.counted w (List.mem_of_getLast? hw)
      by_cases own : w.writerID = writerID s.owner
      · obtain rfl := inj (id.symm.trans own)
        exact counted.lt_logEntry ok _ _ _ _
      · rcases lt_or_eq_of_le (leased w hw) with lt | same
        · apply Fence.lt_of_window_lt
          rw [written, window_logEntry, (Sequencer.stamp_ok ok).1]
          exact lt
        · rw [lt_written_iff_of_window kind entry nowUnixNano ok same]
          exact ahead w hw own same
    obtain ⟨init, hinit⟩ := List.getLast?_eq_some_iff.1 hw
    rw [hinit, List.mem_append] at hx
    rcases hx with hx | hx
    · rw [hinit, List.pairwise_append] at increasing
      exact (increasing.2.2 x hx w (by simp)).trans last
    · rw [List.mem_singleton.1 hx]
      exact last

theorem exists_of_writing {s : Cluster} {a : KeyAction} {f : ℤ × ℤ} (h : f ∈ writing s a) :
    ∃ kind entry nowUnixNano q, a = .write f.1 f.2 kind entry nowUnixNano ∧
      (s.sequencers s.owner).stamp f.1 f.2 = .ok q := by
  cases a with
  | write generation epoch kind entry nowUnixNano =>
    simp only [writing] at h
    split_ifs at h with ok
    · cases h
      cases stamped : (s.sequencers s.owner).stamp generation epoch with
      | ok q => exact ⟨kind, entry, nowUnixNano, q, rfl, rfl⟩
      | error e => simp [stamped, Except.isOk, Except.toBool] at ok
    · cases h
  | _ => cases h

/-- A step after which the row comes to be the last write keeps the fences increasing. -/
theorem increasing_step (inj : Function.Injective writerID) {s u : Cluster} {a : KeyAction}
    (inv : Tracked writerID key s) (increasing : s.writes.Pairwise fun x y => x.fence < y.fence)
    (keeps : KeepsLast writerID key s a) (h : keyStep writerID key s a = some u) :
    u.writes.Pairwise fun x y => x.fence < y.fence := by
  cases keyStep_spec h with
  | write ok =>
    rw [keepsLast_write_iff inj inv increasing _ _ _ ok] at keeps
    refine List.pairwise_append.2 ⟨increasing, List.pairwise_singleton _ _, ?_⟩
    intro x hx y hy
    rw [List.mem_singleton.1 hy]
    exact keeps x hx
  | stamp _ => exact increasing
  | refused _ => exact increasing
  | flush _ => exact increasing
  | handoff _ => exact increasing

/-- While fences increase along the writes, an action keeps the row the last write exactly when the
counter of the node that writes is ahead. -/
theorem keepsLast_iff_counterAhead (inj : Function.Injective writerID) {s : Cluster} {a : KeyAction}
    (inv : Tracked writerID key s) (increasing : s.writes.Pairwise fun x y => x.fence < y.fence)
    (leased : Leased s a) : KeepsLast writerID key s a ↔ CounterAhead writerID s a := by
  cases hw : writing s a with
  | none =>
    have keeps : KeepsLast writerID key s a := by
      intro u enabled
      apply (inv.step enabled).rowIsLast
      rw [writes_step hw enabled]
      exact increasing
    simp [keeps, CounterAhead, hw]
  | some f =>
    obtain ⟨kind, entry, nowUnixNano, q, rfl, ok⟩ := exists_of_writing hw
    rw [keepsLast_write_iff inj inv increasing kind entry nowUnixNano ok,
      lt_written_iff inj inv increasing kind entry nowUnixNano ok (leased f hw)]
    simp [CounterAhead, hw]

end Invariant

/-- Take any nodes with distinct writer ids and a key without a row.  In any run in which windows do
not go back from one write of the key to the next, and ownership moves only after a drain, the row
is the last acknowledged write whenever everything is flushed, if and only if no node writes in the
window of another node's last write with a counter that is behind. -/
theorem row_is_last_write_iff (writerID : ℕ → Bytes) (inj : Function.Injective writerID)
    (key : DurableOperation) (owner : ℕ) (t : Table) (fresh : t.row (key.dmap, key.hkey) = none)
    (as : List KeyAction) (s : Cluster) :
    Run (keyStep writerID key) (fun s a => Leased s a ∧ KeepsLast writerID key s a)
        (.start owner t) as s ↔
      Run (keyStep writerID key) (fun s a => Leased s a ∧ CounterAhead writerID s a)
        (.start owner t) as s := by
  apply Run.congr fun s => Tracked writerID key s ∧ s.writes.Pairwise fun x y => x.fence < y.fence
  · refine ⟨⟨?_, ?_, ?_, ?_, ?_⟩, ?_⟩ <;> simp [Cluster.start, fresh]
  · rintro s a u ⟨inv, increasing⟩ ⟨-, keeps⟩ enabled
    exact ⟨inv.step enabled, increasing_step inj inv increasing keeps enabled⟩
  · rintro s a ⟨inv, increasing⟩ -
    apply and_congr_right
    intro leased
    exact keepsLast_iff_counterAhead inj inv increasing leased

/-- Writer ids of different lengths. -/
def writerIDs (n : ℕ) : Bytes := List.replicate (n + 1) 97

theorem writerIDs_injective : Function.Injective writerIDs := by
  intro m n h
  simpa [writerIDs] using congrArg List.length h

/-- Two writes by node 0 in epoch 1; after the handoff node 1 writes in epoch 2. -/
def newEpochRun : List KeyAction :=
  let w (n : ℕ) (e s : ℤ) := logEntry (writerIDs n) .set (someKey 1) ⟨1, e, s⟩ 0
  [.write 1 1 .set (someKey 1).entry 0, .write 1 1 .set (someKey 1).entry 0, .flush (w 0 1 2),
    .flush (w 0 1 1), .handoff 1, .write 1 2 .set (someKey 1).entry 0, .flush (w 1 2 1)]

theorem row_is_last_write_new_epoch :
    ∃ s, Run (keyStep writerIDs (someKey 1))
        (fun s a => Leased s a ∧ KeepsLast writerIDs (someKey 1) s a) (.start 0 .empty)
        newEpochRun s ∧ s.writes.length = 3 := by
  obtain ⟨s, run, length⟩ := Run.exists_of_exec (keyStep writerIDs (someKey 1))
    (fun s a => Leased s a ∧ CounterAhead writerIDs s a) (.start 0 .empty) newEpochRun
    (fun s => s.writes.length = 3) (by decide +kernel)
  exact ⟨s, (row_is_last_write_iff writerIDs writerIDs_injective (someKey 1) 0 .empty rfl
    newEpochRun s).2 run, length⟩

/-- The same with node 1 still in epoch 1. -/
def sameEpochRun : List KeyAction :=
  let w (n : ℕ) (e s : ℤ) := logEntry (writerIDs n) .set (someKey 1) ⟨1, e, s⟩ 0
  [.write 1 1 .set (someKey 1).entry 0, .write 1 1 .set (someKey 1).entry 0, .flush (w 0 1 2),
    .flush (w 0 1 1), .handoff 1, .write 1 1 .set (someKey 1).entry 0, .flush (w 1 1 1)]

/-- After a drained handoff the new owner's acknowledged write is flushed and does not become the
row. -/
theorem new_owner_loses :
    ∃ s, Run (keyStep writerIDs (someKey 1)) Leased (.start 0 .empty) sameEpochRun s ∧
      s.unflushed = [] ∧
      ∃ w ∈ s.writes.getLast?, s.table.row w.ref.rowKey ≠ some (recordFromEntry w) := by
  apply Run.exists_of_exec
  decide +kernel

end OlricStack.Node
