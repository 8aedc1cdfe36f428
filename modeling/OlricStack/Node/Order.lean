import OlricStack.Node.Publish

/-!
# The order of the log

Stamping and appending are steps of their own, so entries of different keys reach the ring in
another order than that of their stamps.  Entries of one key do not: the operation holds the
fragment lock from before its mutation until the append, and the sequencer only counts up.  So the
log of a key is in the order of its stamps and of the mutations of memory, and no stamp is used
twice, whatever the lease does meanwhile (`log_in_fence_order`).
-/

namespace OlricStack

/-- The generation, epoch and owner sequence of a log entry, in the order in which they compare. -/
def Entry.stamp (e : Entry) : ℤ ×ₗ ℤ ×ₗ ℤ := toLex (e.generation, toLex (e.epoch, e.ownerSeq))

namespace Node

open Transition

/-- The triple a sequencer stands at. -/
def Sequencer.triple (q : Sequencer) : ℤ ×ₗ ℤ ×ₗ ℤ := toLex (q.generation, toLex (q.epoch, q.seq))

/-- Every stamp is above all earlier ones. -/
theorem Sequencer.triple_lt_of_stamp {q q' : Sequencer} {generation epoch : ℤ}
    (h : q.stamp generation epoch = .ok q') : q.triple < q'.triple := by
  obtain ⟨rfl, -, -, forward⟩ := stamp_ok h
  rw [window_le_iff] at forward
  simp only [triple, Prod.Lex.toLex_lt_toLex, counted]
  split_ifs with same
  · exact .inr ⟨same.1.symm, .inr ⟨same.2.symm, by omega⟩⟩
  · rcases forward with lt | ⟨eq, le⟩
    · exact .inl lt
    · exact .inr ⟨eq, .inl (by omega)⟩

/-! ## Operations and what they hold -/

namespace Operation

/-- The row of the key. -/
def rowKey (o : Operation) : RowKey := (o.op.dmap, o.op.hkey)

/-- The operation has its fragment's lock. -/
def holds (o : Operation) : Bool :=
  match o.pc with
  | .locked | .fenced | .checked | .mutated | .sequenced _ => true
  | _ => false

/-- Memory is mutated and the log entry is still to come. -/
def unlogged (o : Operation) : Bool :=
  match o.pc with
  | .mutated | .sequenced _ => true
  | _ => false

/-- The stamp of an operation that has one and has not used it yet. -/
def stamped (o : Operation) : Option Sequencer :=
  match o.pc with
  | .sequenced stamped => some stamped
  | _ => none

theorem holds_of_unlogged {o : Operation} (h : o.unlogged) : o.holds := by
  obtain ⟨kind, fragment, op, pc⟩ := o
  cases pc <;> first | rfl | cases h

theorem unlogged_of_stamped {o : Operation} {q : Sequencer} (h : o.stamped = some q) :
    o.unlogged := by
  obtain ⟨kind, fragment, op, pc⟩ := o
  cases pc <;> first | rfl | cases h

theorem stamped_of_not_unlogged {o : Operation} (h : o.unlogged = false) : o.stamped = none := by
  obtain ⟨kind, fragment, op, pc⟩ := o
  cases pc <;> first | rfl | cases h

theorem not_unlogged_of_not_holds {o : Operation} (h : o.holds = false) : o.unlogged = false := by
  by_contra pending
  rw [o.holds_of_unlogged (by simpa using pending)] at h
  cases h

theorem stamped_of_not_holds {o : Operation} (h : o.holds = false) : o.stamped = none :=
  stamped_of_not_unlogged (not_unlogged_of_not_holds h)

end Operation

/-! ## Histories -/

/-- The operations an action mutates memory for, with the row of each. -/
def mutatedBy (s : State) : Action → List (ℕ × RowKey)
  | .mutate i true => ((s.ops[i]?).map fun o => (i, o.rowKey)).toList
  | _ => []

/-- The operations an action appends an entry for, with the entry. -/
def loggedBy (s : State) : Action → List (ℕ × Entry)
  | .append i true nowUnixNano =>
    match s.ops[i]? with
    | some ⟨kind, _, op, .sequenced stamped⟩ =>
      [(i, logEntry s.writerID kind op stamped nowUnixNano)]
    | _ => []
  | _ => []

/-- A node with the record of its mutations and of its appends, by operation. -/
structure Traced where
  node : State
  mutated : List (ℕ × RowKey)
  logged : List (ℕ × Entry)

/-- A step of the node, or one that the node's model leaves out. -/
inductive Event
  | step (a : Action)
  /-- `Append` reports a full ring, and the operation tries again -/
  | ringFull (i : ℕ)
  /-- the lease is revoked -/
  | revoke
deriving DecidableEq, Repr

/-- One event, with what it mutates and logs. -/
def Traced.step (t : Traced) : Event → Option Traced
  | .step a =>
    (Node.step t.node a).map fun u =>
      ⟨u, t.mutated ++ mutatedBy t.node a, t.logged ++ loggedBy t.node a⟩
  | .ringFull i => if ((t.node.ops[i]?).bind Operation.stamped).isSome then some t else none
  | .revoke => some { t with node := { t.node with lease := t.node.lease.revoke } }

/-- A process that has not done anything yet. -/
def Traced.start (writerID : Bytes) (lease : Lease) (sequencer : Sequencer) : Traced where
  node := ⟨writerID, lease, sequencer, [], [], [], []⟩
  mutated := []
  logged := []

/-- An operation locks the fragment its map and hashed key belong to. -/
def LocksItsFragment (fragmentOf : Bytes → ℕ → ℕ) (_ : Traced) : Event → Prop
  | .step (.call _ fragment op) => fragment = fragmentOf op.dmap op.hkey
  | _ => True

/-! ## What a step does -/

/-- The steps, by their effect on the operations, the locks, the sequencer and the log. -/
inductive NodeStep (s : State) : Action → State → Prop
  | call {kind : Op} {fragment : ℕ} {op op' : DurableOperation}
      (same : op'.dmap = op.dmap ∧ op'.hkey = op.hkey) :
      NodeStep s (.call kind fragment op)
        { s with ops := s.ops ++ [⟨kind, fragment, op', .called⟩] }
  | lease {a : Action} {l : Lease} (silent : mutatedBy s a = [] ∧ loggedBy s a = []) :
      NodeStep s a { s with lease := l }
  | move {a : Action} {i : ℕ} {o o' : Operation} (at_i : s.ops[i]? = some o)
      (silent : mutatedBy s a = [] ∧ loggedBy s a = [])
      (same : o'.fragment = o.fragment ∧ o'.rowKey = o.rowKey) (holds : o'.holds → o.holds)
      (plain : o'.unlogged = false) (plain' : o.unlogged = false) :
      NodeStep s a { s with ops := s.ops.set i o' }
  | acquire {i : ℕ} {o : Operation} {pc : OpPc} (at_i : s.ops[i]? = some o)
      (free : o.fragment ∉ s.locks) (plain : { o with pc := pc }.unlogged = false)
      (plain' : o.unlogged = false) :
      NodeStep s (.lock i)
        { s with ops := s.ops.set i { o with pc := pc }, locks := o.fragment :: s.locks }
  | release {a : Action} {i : ℕ} {o : Operation} {pc : OpPc} (at_i : s.ops[i]? = some o)
      (silent : mutatedBy s a = [] ∧ loggedBy s a = []) (held : o.holds)
      (done : { o with pc := pc }.holds = false) :
      NodeStep s a
        { s with ops := s.ops.set i { o with pc := pc }, locks := s.locks.erase o.fragment }
  | mutate {i : ℕ} {o : Operation} (at_i : s.ops[i]? = some o) (ready : o.pc = .checked) :
      NodeStep s (.mutate i true) { s with ops := s.ops.set i { o with pc := .mutated } }
  | stamp {i : ℕ} {o : Operation} {q : Sequencer} {stamps : List (ℤ × ℤ)}
      (at_i : s.ops[i]? = some o) (ready : o.pc = .mutated)
      (above : s.sequencer.triple < q.triple) :
      NodeStep s (.stamp i)
        { s with
          ops := s.ops.set i { o with pc := .sequenced q }, sequencer := q, stamps := stamps }
  | append {i : ℕ} {o : Operation} {q : Sequencer} {nowUnixNano : ℤ} (at_i : s.ops[i]? = some o)
      (ready : o.pc = .sequenced q) :
      NodeStep s (.append i true nowUnixNano)
        { s with
          ops := s.ops.set i { o with pc := .acknowledged }
          locks := s.locks.erase o.fragment
          log := s.log ++ [logEntry s.writerID o.kind o.op q nowUnixNano] }

theorem refuse_spec {s : State} {a : Action} {i : ℕ} {o : Operation} (ho : s.ops[i]? = some o)
    (silent : mutatedBy s a = [] ∧ loggedBy s a = [])
    (ready : o.pc = if o.kind = .set then .called else .locked) : NodeStep s a (s.refuse i o) := by
  obtain ⟨kind, fragment, op, pc⟩ := o
  unfold State.refuse
  split_ifs at ready ⊢ with isSet
  · obtain rfl : pc = _ := ready
    exact .move ho silent ⟨rfl, rfl⟩ (fun h => nomatch h) rfl rfl
  · obtain rfl : pc = _ := ready
    exact .release ho silent rfl rfl

theorem before_spec {s : State} {i : ℕ} {o : Operation} (ho : s.ops[i]? = some o)
    (ready : o.pc = if o.kind = .set then .called else .locked) (nowMs : ℤ) (room : Bool) :
    NodeStep s (.before i nowMs room) (s.before i o nowMs room) := by
  unfold State.before
  split
  · exact refuse_spec ho ⟨rfl, rfl⟩ ready
  cases room with
  | false => exact refuse_spec ho ⟨rfl, rfl⟩ ready
  | true =>
    obtain ⟨kind, fragment, op, pc⟩ := o
    cases kind with
    | set =>
      obtain rfl : pc = .called := ready
      exact .move ho ⟨rfl, rfl⟩ ⟨rfl, rfl⟩ (fun h => nomatch h) rfl rfl
    | delete =>
      obtain rfl : pc = .locked := ready
      exact .move ho ⟨rfl, rfl⟩ ⟨rfl, rfl⟩ (fun _ => rfl) rfl rfl
    | expire =>
      obtain rfl : pc = .locked := ready
      exact .move ho ⟨rfl, rfl⟩ ⟨rfl, rfl⟩ (fun _ => rfl) rfl rfl

theorem step_spec {s u : State} {a : Action} (h : step s a = some u) : NodeStep s a u := by
  cases opStep_of_step h with
  | call => exact .call ⟨rfl, rfl⟩
  | before at_i ready => exact before_spec at_i ready _ _
  | @lock i o at_i ready free =>
    obtain ⟨kind, fragment, op, pc⟩ := o
    obtain rfl : pc = if kind = .set then .prepared else .called := ready
    cases kind <;> exact .acquire at_i free rfl rfl
  | @verify i o _ at_i ready =>
    obtain ⟨kind, fragment, op, pc⟩ := o
    obtain rfl : pc = _ := ready
    exact .move at_i ⟨rfl, rfl⟩ ⟨rfl, rfl⟩ (fun _ => rfl) rfl rfl
  | mutate at_i ready => exact .mutate at_i ready
  | absent at_i ready | refute at_i ready | mutateFails at_i ready | stampFails at_i ready
  | appendFails at_i ready =>
    refine .release at_i ⟨rfl, rfl⟩ ?_ rfl
    simp [Operation.holds, ready]
  | stamp at_i ready ok => exact .stamp at_i ready (Sequencer.triple_lt_of_stamp ok)
  | append at_i ready => exact .append at_i ready
  | apply | ignore => exact .lease ⟨rfl, rfl⟩

/-! ## Locks -/

/-- An operation holds its fragment's lock alone. -/
structure Locks (fragmentOf : Bytes → ℕ → ℕ) (s : State) : Prop where
  fragments : ∀ o ∈ s.ops, o.fragment = fragmentOf o.op.dmap o.op.hkey
  held : ∀ o ∈ s.ops, o.holds → o.fragment ∈ s.locks
  exclusive : ∀ i : ℕ, ∀ o ∈ s.ops[i]?, ∀ j : ℕ, ∀ o' ∈ s.ops[j]?, o.holds → o'.holds →
    o.fragment = o'.fragment → i = j

namespace Locks

variable {fragmentOf : Bytes → ℕ → ℕ} {s u : State}

/-- Two operations on one row do not hold locks at once. -/
theorem eq_of_rowKey (inv : Locks fragmentOf s) {i j : ℕ} {o o' : Operation}
    (ho : s.ops[i]? = some o) (ho' : s.ops[j]? = some o') (held : o.holds) (held' : o'.holds)
    (row : o.rowKey = o'.rowKey) : i = j := by
  obtain ⟨dmap, hkey⟩ := Prod.mk.inj row
  refine inv.exclusive i o ho j o' ho' held held' ?_
  rw [inv.fragments o (List.mem_of_getElem? ho), inv.fragments o' (List.mem_of_getElem? ho'), dmap,
    hkey]

/-- One operation moves and the locks change: what it then holds is locked and held by no other, and
what the others hold stays locked. -/
theorem update (inv : Locks fragmentOf s) {i : ℕ} {o o' : Operation} (ho : s.ops[i]? = some o)
    (ops : u.ops = s.ops.set i o') {locks : List ℕ} (locked : u.locks = locks)
    (same : o'.fragment = o.fragment ∧ o'.rowKey = o.rowKey)
    (mine : o'.holds → o'.fragment ∈ locks)
    (others : ∀ j : ℕ, ∀ x ∈ s.ops[j]?, j ≠ i → x.holds →
      x.fragment ∈ locks ∧ (o'.holds → x.fragment ≠ o.fragment)) : Locks fragmentOf u := by
  subst locked
  refine ⟨?_, ?_, ?_⟩
  · rw [ops]
    refine forall_mem_set inv.fragments ?_
    obtain ⟨dmap, hkey⟩ := Prod.mk.inj same.2
    rw [same.1, inv.fragments o (List.mem_of_getElem? ho), dmap, hkey]
  · intro x hx held
    obtain ⟨j, hj⟩ := List.mem_iff_getElem?.1 hx
    rw [ops] at hj
    rcases getElem?_set_cases hj with ⟨-, rfl⟩ | ⟨ne, hj⟩
    · exact mine held
    · exact (others j x hj ne held).1
  · intro j x hx k y hy heldx heldy frag
    rw [ops] at hx hy
    rcases getElem?_set_cases hx with ⟨rfl, rfl⟩ | ⟨nex, hx'⟩ <;>
      rcases getElem?_set_cases hy with ⟨rfl, rfl⟩ | ⟨ney, hy'⟩
    · rfl
    · exact absurd (frag.symm.trans same.1) ((others k y hy' ney heldy).2 heldx)
    · exact absurd (frag.trans same.1) ((others j x hx' nex heldx).2 heldy)
    · exact inv.exclusive j x hx' k y hy' heldx heldy frag

/-- One operation moves on with the lock it has, if any. -/
theorem keep (inv : Locks fragmentOf s) {i : ℕ} {o o' : Operation} (ho : s.ops[i]? = some o)
    (ops : u.ops = s.ops.set i o') (locked : u.locks = s.locks)
    (same : o'.fragment = o.fragment ∧ o'.rowKey = o.rowKey) (holds : o'.holds → o.holds) :
    Locks fragmentOf u := by
  refine inv.update ho ops locked same (fun h => ?_) fun j x hx ne heldx => ?_
  · rw [same.1]
    exact inv.held o (List.mem_of_getElem? ho) (holds h)
  · refine ⟨inv.held x (List.mem_of_getElem? hx) heldx, fun h frag => ?_⟩
    exact ne (inv.exclusive j x hx i o ho heldx (holds h) frag)

/-- One operation gives up its lock. -/
theorem unlock (inv : Locks fragmentOf s) {i : ℕ} {o o' : Operation} (ho : s.ops[i]? = some o)
    (ops : u.ops = s.ops.set i o') (locked : u.locks = s.locks.erase o.fragment)
    (same : o'.fragment = o.fragment ∧ o'.rowKey = o.rowKey) (held : o.holds)
    (done : o'.holds = false) : Locks fragmentOf u := by
  refine inv.update ho ops locked same (fun h => ?_) fun j x hx ne heldx => ?_
  · rw [done] at h
    cases h
  · have apart : x.fragment ≠ o.fragment := fun frag =>
      ne (inv.exclusive j x hx i o ho heldx held frag)
    have still := inv.held x (List.mem_of_getElem? hx) heldx
    exact ⟨(List.mem_erase_of_ne apart).2 still, fun _ => apart⟩

theorem step (inv : Locks fragmentOf s) {a : Action}
    (own : ∀ kind fragment op, a = .call kind fragment op → fragment = fragmentOf op.dmap op.hkey)
    (h : NodeStep s a u) : Locks fragmentOf u := by
  cases h with
  | @call kind fragment op op' same =>
    refine ⟨forall_mem_snoc inv.fragments ?_, forall_mem_snoc inv.held (fun h => nomatch h), ?_⟩
    · rw [own kind fragment op rfl, same.1, same.2]
    · intro i o ho j o' ho' held held' frag
      rcases getElem?_snoc_cases ho with rfl | ho
      · cases held
      rcases getElem?_snoc_cases ho' with rfl | ho'
      · cases held'
      exact inv.exclusive i o ho j o' ho' held held' frag
  | lease _ => exact ⟨inv.fragments, inv.held, inv.exclusive⟩
  | move at_i _ same holds _ _ => exact inv.keep at_i rfl rfl same holds
  | acquire at_i free _ _ =>
    refine inv.update at_i rfl rfl ⟨rfl, rfl⟩ (fun _ => List.mem_cons_self)
      fun j x hx ne heldx => ?_
    have locked := inv.held x (List.mem_of_getElem? hx) heldx
    exact ⟨List.mem_cons_of_mem _ locked, fun _ frag => free (frag ▸ locked)⟩
  | release at_i _ held done => exact inv.unlock at_i rfl rfl ⟨rfl, rfl⟩ held done
  | mutate at_i ready => exact inv.keep at_i rfl rfl ⟨rfl, rfl⟩ (by simp [Operation.holds, ready])
  | stamp at_i ready _ => exact inv.keep at_i rfl rfl ⟨rfl, rfl⟩ (by simp [Operation.holds, ready])
  | append at_i ready =>
    exact inv.unlock at_i rfl rfl ⟨rfl, rfl⟩ (by simp [Operation.holds, ready]) rfl

end Locks

/-! ## Stamps -/

/-- Stamps in use and in the log are not above the sequencer and all different, and the stamp of an
operation under way is above those its row has in the log. -/
structure Stamps (s : State) : Prop where
  logged : ∀ e ∈ s.log, e.stamp ≤ s.sequencer.triple
  taken : ∀ o ∈ s.ops, ∀ q ∈ o.stamped, q.triple ≤ s.sequencer.triple ∧
    ∀ e ∈ s.log, e.stamp ≠ q.triple ∧ (e.ref.rowKey = o.rowKey → e.stamp < q.triple)
  apart : ∀ i : ℕ, ∀ o ∈ s.ops[i]?, ∀ q ∈ o.stamped, ∀ j : ℕ, ∀ o' ∈ s.ops[j]?, ∀ q' ∈ o'.stamped,
    q.triple = q'.triple → i = j
  distinct : s.log.Pairwise fun x y => x.stamp ≠ y.stamp
  ordered : s.log.Pairwise fun x y => x.ref.rowKey = y.ref.rowKey → x.stamp < y.stamp

namespace Stamps

variable {s u : State}

/-- One operation moves on without a stamp. -/
theorem keep (inv : Stamps s) {i : ℕ} {o' : Operation} (ops : u.ops = s.ops.set i o')
    (none : o'.stamped = none) (sequencer : u.sequencer = s.sequencer) (log : u.log = s.log) :
    Stamps u := by
  refine ⟨?_, ?_, ?_, ?_, ?_⟩
  · rw [log, sequencer]
    exact inv.logged
  · rw [ops, log, sequencer]
    exact forall_mem_set inv.taken (by simp [none])
  · rw [ops]
    intro j x hx q hq k y hy q' hq'
    rcases getElem?_set_cases hx with ⟨-, rfl⟩ | ⟨-, hx⟩
    · simp [none] at hq
    rcases getElem?_set_cases hy with ⟨-, rfl⟩ | ⟨-, hy⟩
    · simp [none] at hq'
    exact inv.apart j x hx q hq k y hy q' hq'
  · rw [log]
    exact inv.distinct
  · rw [log]
    exact inv.ordered

theorem stamp (inv : Stamps s) {i : ℕ} {o : Operation} {q : Sequencer} {stamps : List (ℤ × ℤ)}
    (above : s.sequencer.triple < q.triple) :
    Stamps { s with
      ops := s.ops.set i { o with pc := .sequenced q }, sequencer := q, stamps := stamps } where
  logged e he := (inv.logged e he).trans above.le
  taken := by
    refine forall_mem_set (fun x hx q' hq' => ?_) fun q' hq' => ?_
    · exact ⟨(inv.taken x hx q' hq').1.trans above.le, (inv.taken x hx q' hq').2⟩
    · obtain rfl : q = q' := Option.some.inj hq'
      refine ⟨le_rfl, fun e he => ?_⟩
      have below := (inv.logged e he).trans_lt above
      exact ⟨below.ne, fun _ => below⟩
  apart := by
    have others : ∀ x ∈ s.ops, ∀ q' ∈ x.stamped, q'.triple ≠ q.triple := fun x hx q' hq' =>
      ((inv.taken x hx q' hq').1.trans_lt above).ne
    intro j x hx q₁ hq₁ k y hy q₂ hq₂ same
    rcases getElem?_set_cases hx with ⟨rfl, rfl⟩ | ⟨-, hx'⟩ <;>
      rcases getElem?_set_cases hy with ⟨rfl, rfl⟩ | ⟨-, hy'⟩
    · rfl
    · obtain rfl : q = q₁ := Option.some.inj hq₁
      exact absurd same.symm (others y (List.mem_of_getElem? hy') q₂ hq₂)
    · obtain rfl : q = q₂ := Option.some.inj hq₂
      exact absurd same (others x (List.mem_of_getElem? hx') q₁ hq₁)
    · exact inv.apart j x hx' q₁ hq₁ k y hy' q₂ hq₂ same
  distinct := inv.distinct
  ordered := inv.ordered

theorem append (inv : Stamps s) {fragmentOf : Bytes → ℕ → ℕ} (locks : Locks fragmentOf s) {i : ℕ}
    {o : Operation} {q : Sequencer} (ho : s.ops[i]? = some o) (hq : o.stamped = some q)
    {o' : Operation} (none : o'.stamped = none) {free : List ℕ} {e : Entry}
    (stamp : e.stamp = q.triple) (row : e.ref.rowKey = o.rowKey) :
    Stamps { s with ops := s.ops.set i o', locks := free, log := s.log ++ [e] } := by
  obtain ⟨le, fresh⟩ := inv.taken o (List.mem_of_getElem? ho) q hq
  have held := o.holds_of_unlogged (Operation.unlogged_of_stamped hq)
  have kept := inv.keep (u := { s with ops := s.ops.set i o' }) rfl none rfl rfl
  refine ⟨forall_mem_snoc inv.logged (stamp ▸ le), ?_, kept.apart, ?_, ?_⟩
  · intro x hx q' hq'
    refine ⟨(kept.taken x hx q' hq').1, forall_mem_snoc (kept.taken x hx q' hq').2 ?_⟩
    -- another operation has another stamp, and another row, as its lock is another one
    obtain ⟨j, hj⟩ := List.mem_iff_getElem?.1 hx
    rcases getElem?_set_cases hj with ⟨-, rfl⟩ | ⟨ne, hj⟩
    · simp [none] at hq'
    refine ⟨fun same => ne ?_, fun sameRow => absurd ?_ ne⟩
    · exact inv.apart j x hj q' hq' i o ho q hq (by rw [← same, stamp])
    · exact locks.eq_of_rowKey hj ho
        (x.holds_of_unlogged (Operation.unlogged_of_stamped hq')) held (by rw [← sameRow, row])
  · refine List.pairwise_append.2 ⟨inv.distinct, List.pairwise_singleton _ _, fun x hx y hy => ?_⟩
    rw [List.mem_singleton.1 hy, stamp]
    exact (fresh x hx).1
  · refine List.pairwise_append.2 ⟨inv.ordered, List.pairwise_singleton _ _, ?_⟩
    intro x hx y hy sameRow
    rw [List.mem_singleton.1 hy] at sameRow ⊢
    rw [stamp]
    exact (fresh x hx).2 (sameRow.trans row)

theorem step (inv : Stamps s) {fragmentOf : Bytes → ℕ → ℕ} (locks : Locks fragmentOf s)
    {a : Action} (h : NodeStep s a u) : Stamps u := by
  cases h with
  | call _ =>
    refine ⟨inv.logged, forall_mem_snoc inv.taken (fun q hq => nomatch hq), ?_, inv.distinct,
      inv.ordered⟩
    intro i o ho q hq j o' ho' q' hq'
    rcases getElem?_snoc_cases ho with rfl | ho
    · cases hq
    rcases getElem?_snoc_cases ho' with rfl | ho'
    · cases hq'
    exact inv.apart i o ho q hq j o' ho' q' hq'
  | lease _ => exact ⟨inv.logged, inv.taken, inv.apart, inv.distinct, inv.ordered⟩
  | move _ _ _ _ plain _ => exact inv.keep rfl (Operation.stamped_of_not_unlogged plain) rfl rfl
  | acquire _ _ plain _ => exact inv.keep rfl (Operation.stamped_of_not_unlogged plain) rfl rfl
  | release _ _ _ done => exact inv.keep rfl (Operation.stamped_of_not_holds done) rfl rfl
  | mutate _ _ => exact inv.keep rfl rfl rfl rfl
  | stamp _ _ above => exact inv.stamp above
  | append at_i ready =>
    exact inv.append locks at_i (by simp [Operation.stamped, ready]) rfl rfl rfl

end Stamps

/-! ## Mutations -/

/-- The operations that have mutated memory for a row, in that order. -/
def Traced.mutatedOn (t : Traced) (k : RowKey) : List ℕ :=
  (t.mutated.filter fun m => m.2 = k).map Prod.fst

/-- The operations of the entries of a row in the log, in that order. -/
def Traced.loggedOn (t : Traced) (k : RowKey) : List ℕ :=
  (t.logged.filter fun m => m.2.ref.rowKey = k).map Prod.fst

/-- The log of a row follows its mutations, and an operation that has mutated memory and is not yet
in the log is the last to have mutated its row. -/
structure Mutations (t : Traced) : Prop where
  log : t.node.log = t.logged.map Prod.snd
  follows : ∀ k, (t.loggedOn k).Sublist (t.mutatedOn k)
  last : ∀ i : ℕ, ∀ o ∈ t.node.ops[i]?, o.unlogged →
    ∃ before, t.mutatedOn o.rowKey = before ++ [i] ∧ (t.loggedOn o.rowKey).Sublist before

namespace Mutations

variable {t : Traced} {u : State}

/-- A step that neither mutates nor logs, after which every unlogged operation was so before. -/
theorem keep (inv : Mutations t) (log : u.log = t.node.log)
    (unlogged : ∀ i : ℕ, ∀ o ∈ u.ops[i]?, o.unlogged →
      ∃ x ∈ t.node.ops[i]?, x.unlogged ∧ x.rowKey = o.rowKey) :
    Mutations ⟨u, t.mutated, t.logged⟩ where
  log := log.trans inv.log
  follows := inv.follows
  last i o ho h := by
    obtain ⟨x, hx, pending, row⟩ := unlogged i o ho h
    rw [← row]
    exact inv.last i x hx pending

theorem mutate (inv : Mutations t) {fragmentOf : Bytes → ℕ → ℕ} (locks : Locks fragmentOf t.node)
    {i : ℕ} {o : Operation} (ho : t.node.ops[i]? = some o) (held : o.holds) {o' : Operation}
    (row : o'.rowKey = o.rowKey) :
    Mutations ⟨{ t.node with ops := t.node.ops.set i o' }, t.mutated ++ [(i, o.rowKey)],
      t.logged⟩ := by
  have mine : Traced.mutatedOn ⟨{ t.node with ops := t.node.ops.set i o' },
      t.mutated ++ [(i, o.rowKey)], t.logged⟩ o.rowKey = t.mutatedOn o.rowKey ++ [i] := by
    simp [Traced.mutatedOn, List.filter_append]
  have others : ∀ k ≠ o.rowKey, Traced.mutatedOn ⟨{ t.node with ops := t.node.ops.set i o' },
      t.mutated ++ [(i, o.rowKey)], t.logged⟩ k = t.mutatedOn k := by
    intro k ne
    simp [Traced.mutatedOn, List.filter_append, Ne.symm ne]
  refine ⟨inv.log, fun k => ?_, fun j x hx unlogged => ?_⟩
  · by_cases same : k = o.rowKey
    · rw [same, mine]
      exact (inv.follows _).trans (List.sublist_append_left _ _)
    · rw [others k same]
      exact inv.follows k
  · rcases getElem?_set_cases hx with ⟨rfl, rfl⟩ | ⟨ne, hj⟩
    · rw [row, mine]
      exact ⟨_, rfl, inv.follows _⟩
    · have apart : x.rowKey ≠ o.rowKey := fun same =>
        ne (locks.eq_of_rowKey hj ho (x.holds_of_unlogged unlogged) held same)
      rw [others _ apart]
      exact inv.last j x hj unlogged

theorem append (inv : Mutations t) {fragmentOf : Bytes → ℕ → ℕ} (locks : Locks fragmentOf t.node)
    {i : ℕ} {o : Operation} (ho : t.node.ops[i]? = some o) (unlogged : o.unlogged) {o' : Operation}
    (done : o'.unlogged = false) {free : List ℕ} {e : Entry} (row : e.ref.rowKey = o.rowKey) :
    Mutations
      ⟨{ t.node with ops := t.node.ops.set i o', locks := free, log := t.node.log ++ [e] },
        t.mutated, t.logged ++ [(i, e)]⟩ := by
  obtain ⟨before, last, sub⟩ := inv.last i o ho unlogged
  have loggedOn : ∀ k, Traced.loggedOn
      ⟨{ t.node with ops := t.node.ops.set i o', locks := free, log := t.node.log ++ [e] },
        t.mutated, t.logged ++ [(i, e)]⟩ k =
      t.loggedOn k ++ if o.rowKey = k then [i] else [] := by
    intro k
    by_cases same : o.rowKey = k <;> simp [Traced.loggedOn, List.filter_append, row, same]
  refine ⟨by simp [inv.log], fun k => ?_, fun j x hx pending => ?_⟩
  · rw [loggedOn]
    by_cases same : o.rowKey = k
    · rw [if_pos same, ← same]
      exact last ▸ sub.append (List.Sublist.refl _)
    · rw [if_neg same, List.append_nil]
      exact inv.follows k
  · rcases getElem?_set_cases hx with ⟨-, rfl⟩ | ⟨ne, hj⟩
    · rw [done] at pending
      cases pending
    · have apart : o.rowKey ≠ x.rowKey := fun same =>
        ne (locks.eq_of_rowKey hj ho (x.holds_of_unlogged pending) (o.holds_of_unlogged unlogged)
          same.symm)
      rw [loggedOn, if_neg apart, List.append_nil]
      exact inv.last j x hj pending

theorem step (inv : Mutations t) {fragmentOf : Bytes → ℕ → ℕ} (locks : Locks fragmentOf t.node)
    {a : Action} (h : NodeStep t.node a u) :
    Mutations ⟨u, t.mutated ++ mutatedBy t.node a, t.logged ++ loggedBy t.node a⟩ := by
  have idle {i : ℕ} {o' : Operation} (done : o'.unlogged = false) {j : ℕ} {x : Operation}
      (hx : (t.node.ops.set i o')[j]? = some x) (pending : x.unlogged) :
      ∃ y ∈ t.node.ops[j]?, y.unlogged ∧ y.rowKey = x.rowKey := by
    rcases getElem?_set_cases hx with ⟨-, rfl⟩ | ⟨-, hj⟩
    · rw [done] at pending
      cases pending
    · exact ⟨x, hj, pending, rfl⟩
  cases h with
  | call _ =>
    simp only [mutatedBy, loggedBy, List.append_nil]
    refine inv.keep rfl fun i o ho pending => ?_
    rcases getElem?_snoc_cases ho with rfl | ho
    · cases pending
    · exact ⟨o, ho, pending, rfl⟩
  | lease silent =>
    rw [silent.1, silent.2, List.append_nil, List.append_nil]
    exact inv.keep rfl fun i o ho pending => ⟨o, ho, pending, rfl⟩
  | move _ silent _ _ plain _ =>
    rw [silent.1, silent.2, List.append_nil, List.append_nil]
    exact inv.keep rfl fun j x hx pending => idle plain hx pending
  | acquire _ _ plain _ =>
    simp only [mutatedBy, loggedBy, List.append_nil]
    exact inv.keep rfl fun j x hx pending => idle plain hx pending
  | release _ silent _ done =>
    rw [silent.1, silent.2, List.append_nil, List.append_nil]
    exact inv.keep rfl fun j x hx pending =>
      idle (Operation.not_unlogged_of_not_holds done) hx pending
  | mutate at_i ready =>
    simp only [mutatedBy, loggedBy, List.append_nil, at_i, Option.map_some, Option.toList_some]
    exact inv.mutate locks at_i (by simp [Operation.holds, ready]) rfl
  | stamp at_i ready _ =>
    simp only [mutatedBy, loggedBy, List.append_nil]
    refine inv.keep rfl fun j x hx pending => ?_
    rcases getElem?_set_cases hx with ⟨rfl, rfl⟩ | ⟨-, hj⟩
    · exact ⟨_, at_i, by simp [Operation.unlogged, ready], rfl⟩
    · exact ⟨x, hj, pending, rfl⟩
  | @append i o q nowUnixNano at_i ready =>
    obtain ⟨kind, fragment, op, pc⟩ := o
    obtain rfl : pc = _ := ready
    simp only [mutatedBy, loggedBy, List.append_nil, at_i]
    exact inv.append locks at_i rfl rfl rfl

end Mutations

/-- What holds of a process in every state. -/
structure InOrder (fragmentOf : Bytes → ℕ → ℕ) (t : Traced) : Prop where
  locks : Locks fragmentOf t.node
  stamps : Stamps t.node
  mutations : Mutations t

theorem InOrder.step {fragmentOf : Bytes → ℕ → ℕ} {t u : Traced} {ev : Event}
    (inv : InOrder fragmentOf t) (own : LocksItsFragment fragmentOf t ev)
    (h : t.step ev = some u) : InOrder fragmentOf u := by
  cases ev with
  | step a =>
    obtain ⟨n, hn, rfl⟩ := Option.map_eq_some_iff.1 h
    have does := step_spec hn
    refine ⟨inv.locks.step ?_ does, inv.stamps.step inv.locks does,
      inv.mutations.step inv.locks does⟩
    rintro kind fragment op rfl
    exact own
  | ringFull i =>
    simp only [Traced.step] at h
    split_ifs at h
    cases h
    exact inv
  | revoke =>
    cases h
    have does : NodeStep t.node (.apply ⟨.primary, 0, 0, 0⟩ 0)
        { t.node with lease := t.node.lease.revoke } := .lease ⟨rfl, rfl⟩
    have mutations := inv.mutations.step inv.locks does
    simp only [mutatedBy, loggedBy, List.append_nil] at mutations
    exact ⟨inv.locks.step (by simp) does, inv.stamps.step inv.locks does,
      mutations⟩

/-- In every run of a process, whatever operations run side by side, whatever happens to the lease,
and whether or not entries get into the ring: the entries of a row are in the log in the order of
their stamps, which is the order of the mutations of memory, and no stamp is used twice. -/
theorem log_in_fence_order (fragmentOf : Bytes → ℕ → ℕ) (writerID : Bytes) (lease : Lease)
    (sequencer : Sequencer) {es : List Event} {t : Traced}
    (run : Run Traced.step (LocksItsFragment fragmentOf) (.start writerID lease sequencer) es t) :
    t.node.log = t.logged.map Prod.snd ∧
      (t.node.log.Pairwise fun x y => x.ref.rowKey = y.ref.rowKey → x.stamp < y.stamp) ∧
      (∀ k, (t.loggedOn k).Sublist (t.mutatedOn k)) ∧
      t.node.log.Pairwise fun x y => x.stamp ≠ y.stamp := by
  obtain ⟨-, stamps, mutations⟩ := run.invariant (InOrder fragmentOf)
    ⟨⟨by simp [Traced.start], by simp [Traced.start], by simp [Traced.start]⟩,
      ⟨by simp [Traced.start], by simp [Traced.start], by simp [Traced.start],
        by simp [Traced.start], by simp [Traced.start]⟩,
      ⟨rfl, fun _ => List.Sublist.refl _, by simp [Traced.start]⟩⟩
    fun t ev u inv own enabled => inv.step own enabled
  exact ⟨mutations.log, stamps.ordered, mutations.follows, stamps.distinct⟩

instance (fragmentOf : Bytes → ℕ → ℕ) (t : Traced) :
    DecidablePred (LocksItsFragment fragmentOf t)
  | .step (.call _ _ _) => inferInstanceAs (Decidable (_ = _))
  | .step (.before _ _ _) | .step (.lock _) | .step (.absent _) | .step (.verify _ _)
  | .step (.mutate _ _) | .step (.stamp _) | .step (.append _ _ _) | .step (.apply _ _)
  | .ringFull _ | .revoke => isTrue trivial

/-- Two SETs of one key with one of another in between, which is stamped first and appended last;
the ring is full at first and the epoch changes on the way. -/
def overtakingRun : List Event :=
  [.step (.call .set 1 (someKey 1)), .step (.call .set 2 (someKey 2)),
    .step (.call .set 1 (someKey 1)), .step (.before 0 0 true), .step (.before 1 0 true),
    .step (.lock 1), .step (.verify 1 0), .step (.mutate 1 true), .step (.stamp 1),
    .step (.lock 0), .step (.verify 0 0), .step (.mutate 0 true), .step (.stamp 0), .ringFull 0,
    .step (.append 0 true 0), .step (.apply ⟨.primary, 1, 2, 1000⟩ 0), .step (.before 2 0 true),
    .step (.lock 2), .step (.verify 2 0), .step (.mutate 2 true), .step (.stamp 2),
    .step (.append 2 true 0), .step (.append 1 true 0), .revoke]

theorem log_in_fence_order_overtaken :
    ∃ t, Run Traced.step (LocksItsFragment fun _ hkey => hkey)
        (.start [97] ⟨1, 1, 1000⟩ .new) overtakingRun t ∧
      t.logged.map Prod.fst = [0, 2, 1] ∧
      t.node.log.Pairwise fun x y => x.ref.rowKey = y.ref.rowKey → x.stamp < y.stamp := by
  obtain ⟨t, run, logged⟩ := Run.exists_of_exec Traced.step (LocksItsFragment fun _ hkey => hkey)
    (.start [97] ⟨1, 1, 1000⟩ .new) overtakingRun (fun t => t.logged.map Prod.fst = [0, 2, 1])
    (by decide +kernel)
  exact ⟨t, run, logged, (log_in_fence_order _ _ _ _ run).2.1⟩

end Node

end OlricStack
