import Mathlib.Algebra.GroupWithZero.Nat
import Mathlib.Algebra.Order.BigOperators.Group.List
import Mathlib.Data.List.MinMax
import Mathlib.Order.Nat
import OlricStack.Lib.Sync
import OlricStack.Sidecar.Stop

/-!
# What the pending set counts

`put`, `drop` and `purgeBelow` keep a running count of the size of the pending set.  It is the sum
over the entries in the map, so that no subtraction wraps, as long as that sum itself is a `uint64`;
and while at most one thread is between its look at the size and its `put`, the set keeps within its
limits (`pending_accounting`).
-/

namespace OlricStack

open Transition

/-! ## The sum over the map -/

/-- What some entries count together, over the integers. -/
def bytesOf (entries : List Entry) : ℕ := (entries.map fun e => (pendingEntryBytes e).toNat).sum

@[simp] theorem bytesOf_nil : bytesOf [] = 0 := rfl

@[simp] theorem bytesOf_cons (e : Entry) (l : List Entry) :
    bytesOf (e :: l) = (pendingEntryBytes e).toNat + bytesOf l := rfl

@[simp] theorem bytesOf_append (l l' : List Entry) :
    bytesOf (l ++ l') = bytesOf l + bytesOf l' := by
  simp [bytesOf]

theorem bytesOf_filter_add (l : List Entry) (out : Entry → Bool) :
    bytesOf (l.filter out) + bytesOf (l.filter fun e => !out e) = bytesOf l := by
  induction l with
  | nil => rfl
  | cons e l ih =>
    cases h : out e <;> simp only [List.filter_cons, h, Bool.not_true, Bool.not_false, if_true,
      Bool.false_eq_true, if_false, bytesOf_cons] <;> omega

theorem bytesOf_le_of_subperm {l l' : List Entry} (h : l.Subperm l') : bytesOf l ≤ bytesOf l' := by
  obtain ⟨k, perm, sub⟩ := h
  calc bytesOf l = bytesOf k := (perm.map _).sum_eq.symm
    _ ≤ bytesOf l' := (sub.map _).sum_le_sum fun _ _ => Nat.zero_le _

/-- The counter, less the entries taken out one after another. -/
def subtractAll (bytes : UInt64) (removed : List Entry) : UInt64 :=
  removed.foldl (fun bytes e => bytes - pendingEntryBytes e) bytes

theorem subtractAll_ofNat {removed : List Entry} : ∀ {n : ℕ}, bytesOf removed ≤ n →
    subtractAll (.ofNat n) removed = .ofNat (n - bytesOf removed) := by
  induction removed with
  | nil => intro n _; rfl
  | cons e l ih =>
    intro n le
    rw [bytesOf_cons] at le ⊢
    have first : UInt64.ofNat n - pendingEntryBytes e =
        .ofNat (n - (pendingEntryBytes e).toNat) := by
      rw [UInt64.ofNat_sub (by omega), UInt64.ofNat_toNat]
    rw [subtractAll, List.foldl_cons, first, ← subtractAll, ih (by omega), Nat.sub_sub]

namespace Pending

variable {p : Pending}

/-- What the map counts, over the integers. -/
def total (p : Pending) : ℕ := bytesOf p.entries.toList

/-- What the largest entry of the map counts, 0 when it is empty. -/
def largest (p : Pending) : ℕ :=
  (p.entries.toList.map fun e => (pendingEntryBytes e).toNat).foldr max 0

/-- The counter is the sum over the map, as a `uint64`. -/
def Counted (p : Pending) : Prop := p.bytes = .ofNat p.total

/-- Subtracting `removed` from the counter, one entry after another, never wraps. -/
def Covers (p : Pending) (removed : List Entry) : Prop :=
  ∀ before e after, removed = before ++ e :: after →
    pendingEntryBytes e ≤ subtractAll p.bytes before

theorem le_largest {e : Entry} (member : e ∈ p.entries.toList) :
    (pendingEntryBytes e).toNat ≤ p.largest :=
  List.le_max_of_le (List.mem_map_of_mem (f := fun e => (pendingEntryBytes e).toNat) member) le_rfl

theorem Counted.toNat_eq (h : p.Counted) (small : p.total < 2 ^ 64) : p.bytes.toNat = p.total := by
  rw [h, UInt64.toNat_ofNat', Nat.mod_eq_of_lt small]

theorem Counted.covers (h : p.Counted) (small : p.total < 2 ^ 64) {removed : List Entry}
    (part : removed.Subperm p.entries.toList) : p.Covers removed := by
  rintro before e after rfl
  have le := bytesOf_le_of_subperm part
  rw [bytesOf_append, bytesOf_cons, ← total] at le
  rw [h, subtractAll_ofNat (by omega), UInt64.le_iff_toNat_le, UInt64.toNat_ofNat',
    Nat.mod_eq_of_lt (by omega)]
  omega

/-- The counter is the sum over the map, and whatever is taken out of the map, in whatever order, no
subtraction from the counter wraps. -/
structure Exact (p : Pending) : Prop where
  counter : p.bytes.toNat = p.total
  covers : ∀ removed, removed.Subperm p.entries.toList → p.Covers removed

theorem Counted.exact (h : p.Counted) (small : p.total < 2 ^ 64) : p.Exact :=
  ⟨h.toNat_eq small, fun _ => h.covers small⟩

/-! ## Removals -/

/-- Take some entries out of the map. -/
def remove (p : Pending) (out : Entry → Bool) : Pending :=
  ⟨p.entries.filter fun e => !out e, subtractAll p.bytes (p.entries.toList.filter out)⟩

theorem purgeBelow_eq (p : Pending) (generation : ℤ) :
    (p.purgeBelow generation).2 = p.remove fun e => e.generation < generation := rfl

theorem drop_eq (p : Pending) (ref : EntryRef) (ownerSeq : ℤ) :
    p.drop ref ownerSeq = p.remove fun e => e.ownerSeq ≤ ownerSeq && e.ref = ref := by
  have out : p.entries.toList.filter (fun e => e.ownerSeq ≤ ownerSeq && e.ref = ref) =
      (p.get ref).toList.filter fun e => e.ownerSeq ≤ ownerSeq := by
    rw [← List.filter_filter, p.entries.filter_key, get]
  unfold drop remove
  rw [out]
  split
  · next e found =>
    obtain ⟨-, rfl⟩ := p.entries.lookup_eq_some_iff.1 found
    have only {x : Entry} (member : x ∈ p.entries.toList) (same : x.ref = e.ref) : x = e :=
      Option.some.inj ((p.entries.lookup_eq_some_iff.2 ⟨member, same⟩).symm.trans found)
    split_ifs with old
    · have kept : p.entries.filter (fun x => !(x.ownerSeq ≤ ownerSeq && x.ref = e.ref)) =
          p.entries.erase e.ref := by
        refine p.entries.filter_congr fun x member => ?_
        by_cases same : x.ref = e.ref
        · simp [only member same, old]
        · simp [same]
      rw [found, kept]
      simp [old, subtractAll]
    · rw [found, p.entries.filter_eq_self]
      · simp [old, subtractAll]
      · intro x member
        by_cases same : x.ref = e.ref
        · simp [only member same, old]
        · simp [same]
  · next none =>
    have others := p.entries.lookup_eq_none_iff.1 none
    rw [none, p.entries.filter_eq_self]
    · rfl
    · intro x member
      simp [others x member]

theorem put_bytes (p : Pending) (e : Entry) :
    (p.put e).bytes = (p.remove fun x => x.ref = e.ref).bytes + pendingEntryBytes e := by
  rw [remove, p.entries.filter_key, put, get]
  cases p.entries.lookup e.ref <;> rfl

theorem total_remove (p : Pending) (out : Entry → Bool) :
    bytesOf (p.entries.toList.filter out) + (p.remove out).total = p.total :=
  bytesOf_filter_add _ out

theorem total_put (p : Pending) (e : Entry) :
    (p.put e).total = (p.remove fun x => x.ref = e.ref).total + (pendingEntryBytes e).toNat := by
  simp [total, put, remove, KeyedSet.insert, KeyedSet.erase, KeyedSet.filter]

@[simp] theorem remove_none (p : Pending) : (p.remove fun _ => false) = p := by
  unfold remove
  rw [List.filter_false, p.entries.filter_eq_self (p := fun _ => !false) fun _ _ => rfl]
  rfl

theorem counted_newPending : newPending.Counted := rfl

theorem Counted.remove (h : p.Counted) (out : Entry → Bool) : (p.remove out).Counted := by
  have sum := p.total_remove out
  have counter : (p.remove out).bytes = subtractAll p.bytes (p.entries.toList.filter out) := rfl
  rw [Counted, counter, h, subtractAll_ofNat (by omega)]
  congr 1
  omega

theorem Counted.put (h : p.Counted) (e : Entry) : (p.put e).Counted := by
  rw [Counted, put_bytes, h.remove, total_put, UInt64.ofNat_add, UInt64.ofNat_toNat]

/-- Taking entries out lowers the counter by what they count. -/
theorem Counted.bytes_remove (h : p.Counted) (small : p.total < 2 ^ 64) (out : Entry → Bool) :
    (p.remove out).bytes.toNat + bytesOf (p.entries.toList.filter out) = p.bytes.toNat := by
  have sum := p.total_remove out
  rw [h.toNat_eq small, (h.remove out).toNat_eq (by omega)]
  omega

theorem Counted.bytes_put_le (h : p.Counted) (small : p.total < 2 ^ 64) (e : Entry) :
    (p.put e).bytes.toNat ≤ p.bytes.toNat + (pendingEntryBytes e).toNat := by
  have less := h.bytes_remove small fun x => x.ref = e.ref
  rw [put_bytes, UInt64.toNat_add]
  have := Nat.mod_le ((p.remove fun x => x.ref = e.ref).bytes.toNat + (pendingEntryBytes e).toNat)
    (2 ^ 64)
  omega

/-- The operations that change the set. -/
inductive Op
  | put (e : Entry)
  | drop (ref : EntryRef) (ownerSeq : ℤ)
  | purgeBelow (generation : ℤ)

/-- What an operation leaves. -/
def apply (p : Pending) : Op → Pending
  | .put e => p.put e
  | .drop ref ownerSeq => p.drop ref ownerSeq
  | .purgeBelow generation => (p.purgeBelow generation).2

theorem Counted.apply (h : p.Counted) (op : Op) : (p.apply op).Counted := by
  cases op with
  | put e => exact h.put e
  | drop ref ownerSeq =>
    rw [Pending.apply, drop_eq]
    exact h.remove _
  | purgeBelow generation => exact h.remove _

theorem counted_foldl_apply (ops : List Op) : (ops.foldl apply newPending).Counted := by
  induction ops using List.reverseRecOn with
  | nil => exact counted_newPending
  | append_singleton ops op ih =>
    rw [List.foldl_concat]
    exact ih.apply op

theorem size_remove_le (p : Pending) (out : Entry → Bool) : (p.remove out).size.1 ≤ p.size.1 :=
  List.length_filter_le _ _

theorem size_put_le (p : Pending) (e : Entry) : (p.put e).size.1 ≤ p.size.1 + 1 := by
  have kept := List.length_filter_le (fun x => decide (x.ref ≠ e.ref)) p.entries.toList
  simpa [size, put, KeyedSet.insert, KeyedSet.erase, KeyedSet.filter] using kept

end Pending

namespace Sidecar

/-! ## What an action does to the pending set -/

/-- The thread has found the pending set not full and has not put an entry since. -/
def Pc.foundRoom : Pc → Bool
  | .popping _ => true
  | .popped _ _ => true
  | _ => false

/-- A thread has looked at the size and not yet put. -/
def FoundRoom (s : State) : Prop := ∃ th ∈ s.threads, th.pc.foundRoom = true

/-- At most one thread is between its look at the size of the pending set and its `put`, as when no
two `drainRing` calls overlap. -/
def Apart (s : State) : Prop := s.threads.countP (fun th => th.pc.foundRoom) ≤ 1

instance (s : State) : Decidable (Apart s) := inferInstanceAs (Decidable (_ ≤ _))

/-- The actions, by what they do to the pending set and to the threads that have found room. -/
inductive CountStep (srv : Server) (s u : State) : Prop
  | remove (out : Entry → Bool) (pending : u.pending = s.pending.remove out)
      (threads : FoundRoom u → FoundRoom s)
  | room (room : srv.pendingFull s.pending = false) (pending : u.pending = s.pending)
  | put {i : ℕ} {th th' : Thread} (e : Entry) (at_i : s.threads[i]? = some th)
      (found : th.pc.foundRoom = true) (pending : u.pending = s.pending.put e)
      (threads : u.threads = s.threads.set i th') (done : th'.pc.foundRoom = false)
  | fresh (pending : u.pending = newPending)

theorem foundRoom_of_set {s u : State} {i : ℕ} {th th' : Thread} (at_i : s.threads[i]? = some th)
    (threads : u.threads = s.threads.set i th')
    (kept : th'.pc.foundRoom = true → th.pc.foundRoom = true) (h : FoundRoom u) :
    FoundRoom s := by
  obtain ⟨x, member, found⟩ := h
  rw [threads] at member
  rcases List.mem_or_eq_of_mem_set member with member | rfl
  · exact ⟨x, member, found⟩
  · exact ⟨th, List.mem_of_getElem? at_i, kept found⟩

/-- A thread that has found room is the only one, and there is none when it is done. -/
theorem Apart.not_foundRoom {s u : State} (apart : Apart s) {i : ℕ} {th th' : Thread}
    (at_i : s.threads[i]? = some th) (found : th.pc.foundRoom = true)
    (threads : u.threads = s.threads.set i th') (done : th'.pc.foundRoom = false) :
    ¬FoundRoom u := by
  have left := Sync.countP_set_leave (fun th => th.pc.foundRoom) at_i found done
  have none : u.threads.countP (fun th => th.pc.foundRoom) = 0 := by
    rw [Apart] at apart
    rw [threads]
    omega
  rintro ⟨x, member, room⟩
  exact List.countP_eq_zero.1 none x member room

theorem Caller.foundRoom_entry {c : Caller} {pc : Pc} (enters : c.entry = some pc) :
    pc.foundRoom = false := by
  cases c with
  | run | finalDrain => cases enters
  | drainPartition =>
    cases enters
    split_ifs <;> rfl
  | shutdown =>
    cases enters
    rfl

theorem Caller.foundRoom_afterFlush (c : Caller) (drained : ℕ) :
    (c.afterFlush drained).foundRoom = false := by
  cases c with
  | finalDrain =>
    simp only [afterFlush]
    split_ifs <;> rfl
  | run | drainPartition | shutdown => rfl

theorem countStep_of_thread {srv : Server} {s u : State} {i : ℕ} {ch : Choice}
    (enabled : srv.step s (.thread i ch) = some u) : CountStep srv s u := by
  obtain ⟨⟨c, pc⟩, at_i, enabled⟩ := Option.bind_eq_some_iff.1 enabled
  obtain ⟨⟨sh', th'⟩, does, enabled⟩ := Option.bind_eq_some_iff.1 enabled
  have kept : (th'.pc.foundRoom = true → pc.foundRoom = true) → FoundRoom u → FoundRoom s :=
    foundRoom_of_set at_i (by cases enabled; rfl)
  cases enabled
  have same := s.pending.remove_none.symm
  cases Server.stepThread_pcStep does with
  | full | empty | reject | collect | upsert | fail | again | stop =>
    exact .remove _ same (kept fun found => by cases found)
  | room room => exact .room room rfl
  | pop => exact .remove _ same (kept fun _ => rfl)
  | put good next =>
    refine .put _ at_i rfl rfl rfl ?_
    rcases next with rfl | rfl <;> rfl
  | nothing | flushed =>
    refine .remove _ same (kept fun found => ?_)
    rw [c.foundRoom_afterFlush] at found
    cases found
  | drop =>
    exact .remove _ (s.pending.drop_eq _ _) (kept fun found => by cases found)

theorem countStep_of_step {srv : Server} {s u : State} {a : Action}
    (enabled : srv.step s a = some u) : CountStep srv s u := by
  have same := s.pending.remove_none.symm
  cases a with
  | thread i ch => exact countStep_of_thread enabled
  | call c =>
    obtain ⟨pc, enters, rfl⟩ := Option.map_eq_some_iff.1 enabled
    refine .remove _ same ?_
    rintro ⟨th, member, found⟩
    rcases List.mem_append.1 member with member | member
    · exact ⟨th, member, found⟩
    · rw [List.mem_singleton.1 member, Caller.foundRoom_entry enters] at found
      cases found
  | restart =>
    cases enabled
    exact .fresh rfl
  | append =>
    cases enabled
    exact .remove _ same id
  | purgePending =>
    cases Server.step_spec enabled with
    | quiet => exact .remove _ same id
    | purgePending => exact .remove _ (s.pending.purgeBelow_eq _) id
  | purgeRows =>
    cases Server.step_spec enabled with
    | quiet | purgeRows => exact .remove _ same id
  | load | lookup | readRow | purge | cancel =>
    cases Server.step_spec enabled with
    | quiet => exact .remove _ same id

theorem CountStep.counted {srv : Server} {s u : State} (h : CountStep srv s u)
    (counted : s.pending.Counted) : u.pending.Counted := by
  cases h with
  | remove out pending =>
    rw [pending]
    exact counted.remove out
  | room _ pending => rwa [pending]
  | put e _ _ pending =>
    rw [pending]
    exact counted.put e
  | fresh pending =>
    rw [pending]
    exact Pending.counted_newPending

/-! ## The limits -/

/-- A limit of the pending set: `Below` is what a thread that finds room has seen, `Within` what
holds all the time, as far as the sets meet `Sound`. -/
structure Limit (srv : Server) (Sound Below Within : Pending → Prop) : Prop where
  room : ∀ p, srv.pendingFull p = false → Below p
  fresh : Below newPending
  within : ∀ p, Below p → Within p
  put : ∀ p e, Sound p → Below p → Within (p.put e)
  below_remove : ∀ p out, Sound p → Below p → Below (p.remove out)
  within_remove : ∀ p out, Sound p → Within p → Within (p.remove out)

/-- The set is within the limit, and below it while a thread has found room. -/
def Limited (Below Within : Pending → Prop) (s : State) : Prop :=
  Within s.pending ∧ (FoundRoom s → Below s.pending)

variable {srv : Server} {s u : State} {Sound Below Within : Pending → Prop}

theorem Limit.step (limit : Limit srv Sound Below Within) (h : Limited Below Within s)
    (sound : Sound s.pending) (apart : Apart s) (does : CountStep srv s u) :
    Limited Below Within u := by
  cases does with
  | remove out pending threads =>
    rw [Limited, pending]
    refine ⟨limit.within_remove _ out sound h.1, fun found => ?_⟩
    exact limit.below_remove _ out sound (h.2 (threads found))
  | room room pending =>
    have below := limit.room _ room
    rw [Limited, pending]
    exact ⟨limit.within _ below, fun _ => below⟩
  | put e at_i found pending threads done =>
    have below := h.2 ⟨_, List.mem_of_getElem? at_i, found⟩
    rw [Limited, pending]
    refine ⟨limit.put _ e sound below, fun again => ?_⟩
    exact absurd again (apart.not_foundRoom at_i found threads done)
  | fresh pending =>
    rw [Limited, pending]
    exact ⟨limit.within _ limit.fresh, fun _ => limit.fresh⟩

theorem limited_start (limit : Limit srv Sound Below Within) (t : Table) :
    Limited Below Within (.start t) :=
  ⟨limit.within _ limit.fresh, fun _ => limit.fresh⟩

/-- `MaxPendingRecords`. -/
theorem recordLimit (positive : 0 < srv.maxPendingRecords) :
    Limit srv (fun _ => True) (fun p => (p.size.1 : ℤ) < srv.maxPendingRecords)
      fun p => (p.size.1 : ℤ) ≤ srv.maxPendingRecords where
  room p h := by
    by_contra full
    simp [Server.pendingFull, positive, not_lt.1 full] at h
  fresh := positive
  within _ := le_of_lt
  put p e _ below := by
    have := p.size_put_le e
    omega
  below_remove p out _ below := by
    have := p.size_remove_le out
    omega
  within_remove p out _ within := by
    have := p.size_remove_le out
    omega

/-- `MaxPendingBytes`. -/
theorem byteLimit (positive : 0 < srv.maxPendingBytes) :
    Limit srv (fun p => p.Counted ∧ p.total < 2 ^ 64)
      (fun p => p.bytes.toNat < srv.maxPendingBytes.toNat)
      fun p => p.bytes.toNat < srv.maxPendingBytes.toNat ∨ ∃ e ∈ p.entries.toList,
        p.bytes.toNat < srv.maxPendingBytes.toNat + (pendingEntryBytes e).toNat where
  room p h := by
    by_contra full
    have le : srv.maxPendingBytes ≤ p.size.2 := UInt64.le_iff_toNat_le.2 (not_lt.1 full)
    simp [Server.pendingFull, positive, le] at h
  fresh := positive
  within _ := .inl
  put p e sound below := by
    have := sound.1.bytes_put_le sound.2 e
    exact .inr ⟨e, p.entries.mem_insert.2 (.inr rfl), by omega⟩
  below_remove p out sound below := by
    have := sound.1.bytes_remove sound.2 out
    omega
  within_remove p out sound within := by
    have less := sound.1.bytes_remove sound.2 out
    rcases within with below | ⟨e, member, within⟩
    · exact .inl (by omega)
    · cases removed : out e with
      | true =>
        have part : bytesOf [e] ≤ bytesOf (p.entries.toList.filter out) :=
          bytesOf_le_of_subperm
            (List.singleton_subperm_iff.2 (List.mem_filter.2 ⟨member, removed⟩))
        rw [bytesOf_cons, bytesOf_nil] at part
        exact .inl (by omega)
      | false =>
        refine .inr ⟨e, List.mem_filter.2 ⟨member, ?_⟩, by omega⟩
        rw [removed]
        rfl

/-- After every sequence of operations on the pending set, and in every state of a run of the
sidecar, the counter is the sum over the map, and no subtraction wraps if that sum is a `uint64`, as
it is for entries that are in memory together.  While at most one thread is between its look at the
size and its `put`, the map keeps within `MaxPendingRecords`, and the counter below
`MaxPendingBytes` and the largest entry of the map together. -/
theorem pending_accounting (srv : Server) (t : Table) :
    (∀ (ops : List Pending.Op) (p : Pending), p = ops.foldl Pending.apply newPending →
      p.Counted ∧ (p.total < 2 ^ 64 → p.Exact)) ∧
    (∀ (as : List Action) (s : State), Run srv.step anyAction (.start t) as s →
      s.pending.Counted ∧ (s.pending.total < 2 ^ 64 → s.pending.Exact)) ∧
    (∀ (as : List Action) (s : State), Run srv.step (fun s _ => Apart s) (.start t) as s →
      0 < srv.maxPendingRecords → (s.pending.size.1 : ℤ) ≤ srv.maxPendingRecords) ∧
    ∀ (as : List Action) (s : State),
      Run srv.step (fun s _ => Apart s ∧ s.pending.total < 2 ^ 64) (.start t) as s →
      0 < srv.maxPendingBytes →
      s.pending.size.2.toNat < srv.maxPendingBytes.toNat + s.pending.largest := by
  refine ⟨?_, ?_, ?_, ?_⟩
  · rintro ops p rfl
    exact ⟨Pending.counted_foldl_apply ops, (Pending.counted_foldl_apply ops).exact⟩
  · intro as s run
    have counted : s.pending.Counted := by
      apply run.invariant (fun s => s.pending.Counted) Pending.counted_newPending
      intro s a u counted _ enabled
      exact (countStep_of_step enabled).counted counted
    exact ⟨counted, counted.exact⟩
  · intro as s run positive
    have limited := run.invariant (Limited _ _) (limited_start (recordLimit positive) t) (by
      intro s a u limited apart enabled
      exact (recordLimit positive).step limited trivial apart (countStep_of_step enabled))
    exact limited.1
  · intro as s run positive
    have limited := run.invariant (fun s => s.pending.Counted ∧ Limited _ _ s)
      ⟨Pending.counted_newPending, limited_start (byteLimit positive) t⟩ (by
      rintro s a u ⟨counted, limited⟩ ⟨apart, small⟩ enabled
      have does := countStep_of_step enabled
      exact ⟨does.counted counted, (byteLimit positive).step limited ⟨counted, small⟩ apart does⟩)
    rcases limited.2.1 with below | ⟨e, member, within⟩
    · exact Nat.lt_add_right _ below
    · exact lt_of_lt_of_le within (Nat.add_le_add_left (Pending.le_largest member) _)

/-- A server with room for two entries and little more than one entry's bytes. -/
def limitedServer : Server := newServer (newMySQLBackend .mysql 256) ⟨256, 2, 100⟩

/-- The second of three entries takes the counter over the limit; the third stays in the ring. -/
def limitedRun : List Action :=
  [.append (setEntry 1 1 1 [97]), .append { setEntry 1 1 2 [97] with key := [98] },
    .append { setEntry 1 1 3 [97] with key := [99] }] ++ steps 0 7

theorem pending_accounting_two :
    ∃ s, Run limitedServer.step (fun s _ => Apart s ∧ s.pending.total < 2 ^ 64) (.start .empty)
        limitedRun s ∧
      s.pending.total = 136 ∧ s.pending.Exact ∧ s.pending.size.1 ≤ 2 ∧
      s.pending.size.2.toNat < 100 + s.pending.largest := by
  obtain ⟨s, run, total⟩ := Run.exists_of_exec limitedServer.step
    (fun s _ => Apart s ∧ s.pending.total < 2 ^ 64) (.start .empty) limitedRun
    (fun s => s.pending.total = 136) (by decide +kernel)
  obtain ⟨-, counted, records, bytes⟩ := pending_accounting limitedServer .empty
  refine ⟨s, run, total, (counted _ s (run.mono fun _ _ _ => trivial)).2 (by omega), ?_, ?_⟩
  · exact Int.ofNat_le.1 (records _ s (run.mono fun _ _ h => h.1) (by decide))
  · exact bytes _ s run (by decide)

end Sidecar

end OlricStack
