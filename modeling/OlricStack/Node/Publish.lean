import OlricStack.Lib.Run
import OlricStack.Node.Fencing

/-!
# Client operations and their publication

The owner's side of SET, DEL and EXPIRE: `putOnCluster` and `deleteKey` of the dmap fork together
with the durable hook of `internal/stringkv/durable_hook.go`.  Operations on different fragments run
side by side; the lease moves under them.  A SET takes its fence before it has the fragment lock, so
two operations may be published in another order than that of their fences, and the sequencer then
refuses the older one although the lease check had accepted it (`stamps_succeed_iff`,
`epoch_advance_kills_write`).
-/

namespace OlricStack.Node

open Transition

/-! ## Operations -/

/-- What the hook reads of a stored entry. -/
structure StoredEntry where
  encoded : Bytes
  ttl : ℤ
  timestamp : ℤ
deriving DecidableEq, Repr

/-- The fields of `config.DurableOperation` the hook uses. -/
structure DurableOperation where
  dmap : Bytes
  key : Bytes
  hkey : ℕ
  entry : Option StoredEntry
  fenceGeneration : ℤ
  fenceEpoch : ℤ
deriving DecidableEq, Repr

/-- The log entry `publish` builds from an operation and its stamp. -/
def logEntry (writerID : Bytes) (kind : Op) (op : DurableOperation) (stamped : Sequencer)
    (nowUnixNano : ℤ) : Entry where
  version := currentVersion
  op := kind
  dmap := op.dmap
  key := op.key
  hkey := op.hkey
  encodedEntry := (op.entry.map StoredEntry.encoded).getD []
  ttl := (op.entry.map StoredEntry.ttl).getD 0
  timestamp := (op.entry.map StoredEntry.timestamp).getD 0
  generation := stamped.generation
  epoch := stamped.epoch
  ownerSeq := stamped.seq
  writerID := writerID
  updatedAtUnixNano := nowUnixNano

/-- `VerifyAfterLock`. -/
def verifyAfterLock (l : Lease) (op : DurableOperation) (nowMs : ℤ) : Bool :=
  op.fenceGeneration = 0 || l.verifyFence op.fenceGeneration op.fenceEpoch nowMs

/-- How far an operation has come. -/
inductive OpPc
  | called
  /-- a SET has its fence and waits for the fragment lock -/
  | prepared
  /-- a DEL or EXPIRE has the fragment lock and no fence yet -/
  | locked
  /-- the fence is taken, the lock is held, `VerifyAfterLock` is to come -/
  | fenced
  /-- the last lease check has passed -/
  | checked
  /-- the mutation has succeeded -/
  | mutated
  /-- the owner sequence is stamped, the log entry is to be appended -/
  | sequenced (stamped : Sequencer)
  | acknowledged
  | rejected
  /-- the mutation could not be published: `OnFatal` -/
  | fatal
deriving DecidableEq, Repr

/-- An operation on a key and how far it has come. -/
structure Operation where
  kind : Op
  fragment : ℕ
  op : DurableOperation
  pc : OpPc
deriving DecidableEq, Repr

/-- A node with the operations under way; `stamps` is the record of the windows stamped. -/
structure State where
  writerID : Bytes
  lease : Lease
  sequencer : Sequencer
  /-- the fragments whose lock is held -/
  locks : List ℕ
  ops : List Operation
  log : List Entry
  stamps : List (ℤ × ℤ)
deriving DecidableEq, Repr

/-- What the operations and the topology do. -/
inductive Action
  | call (kind : Op) (fragment : ℕ) (op : DurableOperation)
  /-- `BeforeSet`, `BeforeDelete` or `BeforeExpire`; `room` is the outcome of the ring check -/
  | before (i : ℕ) (nowMs : ℤ) (room : Bool)
  | lock (i : ℕ)
  /-- EXPIRE finds no entry -/
  | absent (i : ℕ)
  | verify (i : ℕ) (nowMs : ℤ)
  /-- the put conditions, eviction and replication, in memory and on the replicas -/
  | mutate (i : ℕ) (ok : Bool)
  | stamp (i : ℕ)
  | append (i : ℕ) (ok : Bool) (nowUnixNano : ℤ)
  | apply (env : Envelope) (nowMs : ℤ)
deriving DecidableEq, Repr

/-- The operation moves on. -/
def State.move (s : State) (i : ℕ) (o : Operation) (pc : OpPc) : State :=
  { s with ops := s.ops.set i { o with pc := pc } }

/-- The operation returns and gives up the fragment lock. -/
def State.finish (s : State) (i : ℕ) (o : Operation) (pc : OpPc) : State :=
  { s.move i o pc with locks := s.locks.erase o.fragment }

/-- The operation returns because its fence was refused; only a SET has no lock yet. -/
def State.refuse (s : State) (i : ℕ) (o : Operation) : State :=
  if o.kind = .set then s.move i o .rejected else s.finish i o .rejected

/-- Where an operation stands once it has its fence: a SET has still to get the lock, and an EXPIRE
is not verified again. -/
def afterBefore : Op → OpPc
  | .set => .prepared
  | .delete => .fenced
  | .expire => .checked

/-- `BeforeSet`, `BeforeDelete` or `BeforeExpire`: the operation takes its fence from the lease and
checks the room in the ring. -/
def State.before (s : State) (i : ℕ) (o : Operation) (nowMs : ℤ) (room : Bool) : State :=
  match s.lease.snapshotForWrite nowMs with
  | none => s.refuse i o
  | some (g, e) =>
    if room then
      s.move i { o with op := { o.op with fenceGeneration := g, fenceEpoch := e } }
        (afterBefore o.kind)
    else s.refuse i o

/-- One step of an operation, or of the subscriber. -/
def step (s : State) : Action → Option State
  | .call kind fragment op =>
    let op := { op with fenceGeneration := 0, fenceEpoch := 0 }
    some { s with ops := s.ops ++ [⟨kind, fragment, op, .called⟩] }
  | .before i nowMs room => do
    let o ← s.ops[i]?
    if o.pc = (if o.kind = .set then .called else .locked) then return s.before i o nowMs room
    else none
  | .lock i => do
    let o ← s.ops[i]?
    if o.pc = (if o.kind = .set then .prepared else .called) ∧ o.fragment ∉ s.locks then
      return { s.move i o (if o.kind = .set then .fenced else .locked) with
        locks := o.fragment :: s.locks }
    else none
  | .absent i => do
    let o ← s.ops[i]?
    if o.kind = .expire ∧ o.pc = .locked then return s.finish i o .rejected else none
  | .verify i nowMs => do
    let o ← s.ops[i]?
    if o.pc = .fenced then
      return if verifyAfterLock s.lease o.op nowMs then s.move i o .checked
        else s.finish i o .rejected
    else none
  | .mutate i ok => do
    let o ← s.ops[i]?
    if o.pc = .checked then
      return if ok then s.move i o .mutated else s.finish i o .rejected
    else none
  | .stamp i => do
    let o ← s.ops[i]?
    if o.pc = .mutated then
      match s.sequencer.stamp o.op.fenceGeneration o.op.fenceEpoch with
      | .ok stamped =>
        return { s.move i o (.sequenced stamped) with
          sequencer := stamped
          stamps := s.stamps ++ [(o.op.fenceGeneration, o.op.fenceEpoch)] }
      | .error _ => return s.finish i o .fatal
    else none
  | .append i ok nowUnixNano => do
    let o ← s.ops[i]?
    match o.pc with
    | .sequenced stamped =>
      return if ok then
          { s.finish i o .acknowledged with
            log := s.log ++ [logEntry s.writerID o.kind o.op stamped nowUnixNano] }
        else s.finish i o .fatal
    | _ => none
  | .apply env nowMs =>
    match s.lease.apply env nowMs with
    | .ok lease => some { s with lease := lease }
    | .error _ => some s

/-! ## What a step does -/

/-- The steps, by the operation that takes them and where it stands. -/
inductive OpStep (s : State) : Action → State → Prop
  | call {kind : Op} {fragment : ℕ} {op : DurableOperation} :
      OpStep s (.call kind fragment op) { s with
        ops := s.ops ++ [⟨kind, fragment, { op with fenceGeneration := 0, fenceEpoch := 0 },
          .called⟩] }
  | before {i : ℕ} {o : Operation} {nowMs : ℤ} {room : Bool} (at_i : s.ops[i]? = some o)
      (ready : o.pc = if o.kind = .set then .called else .locked) :
      OpStep s (.before i nowMs room) (s.before i o nowMs room)
  | lock {i : ℕ} {o : Operation} (at_i : s.ops[i]? = some o)
      (ready : o.pc = if o.kind = .set then .prepared else .called)
      (free : o.fragment ∉ s.locks) :
      OpStep s (.lock i) { s.move i o (if o.kind = .set then .fenced else .locked) with
        locks := o.fragment :: s.locks }
  | absent {i : ℕ} {o : Operation} (at_i : s.ops[i]? = some o) (ready : o.pc = .locked) :
      OpStep s (.absent i) (s.finish i o .rejected)
  | verify {i : ℕ} {o : Operation} {nowMs : ℤ} (at_i : s.ops[i]? = some o)
      (ready : o.pc = .fenced) : OpStep s (.verify i nowMs) (s.move i o .checked)
  | refute {i : ℕ} {o : Operation} {nowMs : ℤ} (at_i : s.ops[i]? = some o)
      (ready : o.pc = .fenced) : OpStep s (.verify i nowMs) (s.finish i o .rejected)
  | mutate {i : ℕ} {o : Operation} (at_i : s.ops[i]? = some o) (ready : o.pc = .checked) :
      OpStep s (.mutate i true) (s.move i o .mutated)
  | mutateFails {i : ℕ} {o : Operation} (at_i : s.ops[i]? = some o) (ready : o.pc = .checked) :
      OpStep s (.mutate i false) (s.finish i o .rejected)
  | stamp {i : ℕ} {o : Operation} {q : Sequencer} (at_i : s.ops[i]? = some o)
      (ready : o.pc = .mutated)
      (ok : s.sequencer.stamp o.op.fenceGeneration o.op.fenceEpoch = .ok q) :
      OpStep s (.stamp i) { s.move i o (.sequenced q) with
        sequencer := q
        stamps := s.stamps ++ [(o.op.fenceGeneration, o.op.fenceEpoch)] }
  | stampFails {i : ℕ} {o : Operation} (at_i : s.ops[i]? = some o) (ready : o.pc = .mutated) :
      OpStep s (.stamp i) (s.finish i o .fatal)
  | append {i : ℕ} {o : Operation} {q : Sequencer} {nowUnixNano : ℤ}
      (at_i : s.ops[i]? = some o) (ready : o.pc = .sequenced q) :
      OpStep s (.append i true nowUnixNano) { s.finish i o .acknowledged with
        log := s.log ++ [logEntry s.writerID o.kind o.op q nowUnixNano] }
  | appendFails {i : ℕ} {o : Operation} {q : Sequencer} {nowUnixNano : ℤ}
      (at_i : s.ops[i]? = some o) (ready : o.pc = .sequenced q) :
      OpStep s (.append i false nowUnixNano) (s.finish i o .fatal)
  | apply {env : Envelope} {nowMs : ℤ} {lease : Lease} (ok : s.lease.apply env nowMs = .ok lease) :
      OpStep s (.apply env nowMs) { s with lease := lease }
  | ignore {env : Envelope} {nowMs : ℤ} : OpStep s (.apply env nowMs) s

theorem opStep_of_step {s u : State} {a : Action} (h : step s a = some u) : OpStep s a u := by
  cases a with
  | call kind fragment op =>
    cases h
    exact .call
  | before i nowMs room =>
    obtain ⟨o, at_i, h⟩ := Option.bind_eq_some_iff.1 h
    by_cases ready : o.pc = if o.kind = .set then .called else .locked
    · rw [if_pos ready] at h
      cases h
      exact .before at_i ready
    · rw [if_neg ready] at h
      cases h
  | lock i =>
    obtain ⟨o, at_i, h⟩ := Option.bind_eq_some_iff.1 h
    by_cases ready : o.pc = (if o.kind = .set then .prepared else .called) ∧ o.fragment ∉ s.locks
    · rw [if_pos ready] at h
      cases h
      exact .lock at_i ready.1 ready.2
    · rw [if_neg ready] at h
      cases h
  | absent i =>
    obtain ⟨o, at_i, h⟩ := Option.bind_eq_some_iff.1 h
    split_ifs at h with ready
    cases h
    exact .absent at_i ready.2
  | verify i nowMs =>
    obtain ⟨o, at_i, h⟩ := Option.bind_eq_some_iff.1 h
    split_ifs at h with ready
    · cases h
      exact .verify at_i ready
    · cases h
      exact .refute at_i ready
  | mutate i ok =>
    obtain ⟨o, at_i, h⟩ := Option.bind_eq_some_iff.1 h
    split at h
    · next ready =>
      cases ok <;> cases h
      · exact .mutateFails at_i ready
      · exact .mutate at_i ready
    · cases h
  | stamp i =>
    obtain ⟨o, at_i, h⟩ := Option.bind_eq_some_iff.1 h
    split_ifs at h with ready
    split at h
    · next stamped ok =>
      cases h
      exact .stamp at_i ready ok
    · cases h
      exact .stampFails at_i ready
  | append i ok nowUnixNano =>
    obtain ⟨o, at_i, h⟩ := Option.bind_eq_some_iff.1 h
    split at h
    · next stamped ready =>
      cases ok <;> cases h
      · exact .appendFails at_i ready
      · exact .append at_i ready
    · cases h
  | apply env nowMs =>
    simp only [step] at h
    split at h
    · next lease ok =>
      cases h
      exact .apply ok
    · cases h
      exact .ignore

/-! ## Conditions -/

/-- The fence an action hands to the sequencer. -/
def stamping (s : State) : Action → Option (ℤ × ℤ)
  | .stamp i =>
    match s.ops[i]? with
    | some o =>
      if o.pc = .mutated then some (o.op.fenceGeneration, o.op.fenceEpoch) else none
    | none => none
  | _ => none

/-- The lease moves only within one generation. -/
def OneGeneration (g : ℤ) (_ : State) : Action → Prop
  | .apply env _ => env.generation = g
  | _ => True

/-- The sequencer accepts the fence of an operation whose mutation has succeeded. -/
def StampSucceeds (s : State) (a : Action) : Prop :=
  ∀ f ∈ stamping s a, (s.sequencer.stamp f.1 f.2).isOk

/-- No operation that took its fence in a later epoch has been stamped before. -/
def InEpochOrder (s : State) (a : Action) : Prop :=
  ∀ f ∈ stamping s a, ∀ f' ∈ s.stamps, f'.2 ≤ f.2

instance (g : ℤ) (s : State) (a : Action) : Decidable (OneGeneration g s a) := by
  cases a <;> unfold OneGeneration <;> infer_instance

instance (s : State) (a : Action) : Decidable (InEpochOrder s a) := by
  unfold InEpochOrder
  infer_instance

/-! ## The invariant -/

/-- The fence of an operation that has one and is not yet stamped. -/
def Operation.Fenced (g : ℤ) (o : Operation) : Prop :=
  o.pc ∈ [.prepared, .fenced, .checked, .mutated] →
    o.op.fenceGeneration = g ∧ 0 ≤ o.op.fenceEpoch

/-- The sequencer stands at the latest window stamped, if any was in this generation. -/
def AtLatest (g : ℤ) (q : Sequencer) (stamps : List (ℤ × ℤ)) : Prop :=
  stamps = [] ∧ q.generation < g ∨
    q.generation = g ∧ (g, q.epoch) ∈ stamps ∧ ∀ f ∈ stamps, f.2 ≤ q.epoch

/-- What holds in every run of one generation: the fences are its own, and the stamps are counted
up. -/
structure Inv (g : ℤ) (s : State) : Prop where
  generation : s.lease.generation = g
  epoch : 0 ≤ s.lease.epoch
  ops : ∀ o ∈ s.ops, o.Fenced g
  latest : AtLatest g s.sequencer s.stamps

/-- The sequencer accepts a fence of the generation exactly when it is not behind the stamps. -/
theorem AtLatest.stamp_isOk_iff {g e : ℤ} {q : Sequencer} {stamps : List (ℤ × ℤ)}
    (latest : AtLatest g q stamps) (pos : 0 < g) (he : 0 ≤ e) :
    (q.stamp g e).isOk ↔ ∀ f ∈ stamps, f.2 ≤ e := by
  rw [Sequencer.stamp_isOk_iff, Sequencer.window_le_iff]
  rcases latest with ⟨rfl, older⟩ | ⟨same, mem, le⟩
  · simp [pos, he, older]
  · constructor
    · rintro ⟨-, -, h⟩ f hf
      have := le f hf
      omega
    · intro h
      exact ⟨pos, he, .inr ⟨same, h _ mem⟩⟩

theorem AtLatest.stamp {g e : ℤ} {q q' : Sequencer} {stamps : List (ℤ × ℤ)}
    (latest : AtLatest g q stamps) (ok : q.stamp g e = .ok q') :
    AtLatest g q' (stamps ++ [(g, e)]) := by
  obtain ⟨rfl, pos, he, -⟩ := Sequencer.stamp_ok ok
  have le := (latest.stamp_isOk_iff pos he).1 (by rw [ok]; rfl)
  refine .inr ⟨rfl, by simp, fun f hf => ?_⟩
  rcases List.mem_append.1 hf with hf | hf
  · exact le f hf
  · rw [List.mem_singleton.1 hf]

section Steps

variable {g : ℤ} {s u : State} {i : ℕ} {o : Operation}

theorem Inv.move (inv : Inv g s) {pc : OpPc} (fenced : { o with pc := pc }.Fenced g) :
    Inv g (s.move i o pc) :=
  ⟨inv.generation, inv.epoch, forall_mem_set inv.ops fenced, inv.latest⟩

theorem Operation.fenced_of_not_mem {pc : OpPc}
    (h : pc ∉ [OpPc.prepared, .fenced, .checked, .mutated]) : { o with pc := pc }.Fenced g :=
  fun mem => absurd mem h

theorem Inv.finish (inv : Inv g s) {pc : OpPc}
    (done : pc ∉ [OpPc.prepared, .fenced, .checked, .mutated]) : Inv g (s.finish i o pc) :=
  ⟨inv.generation, inv.epoch, forall_mem_set inv.ops (Operation.fenced_of_not_mem done), inv.latest⟩

/-- An operation that goes on keeps its fence. -/
theorem Operation.Fenced.keep (h : o.Fenced g)
    (had : o.pc ∈ [OpPc.prepared, .fenced, .checked, .mutated]) (pc : OpPc) :
    { o with pc := pc }.Fenced g :=
  fun _ => h had

theorem Inv.refuse (inv : Inv g s) : Inv g (s.refuse i o) := by
  unfold State.refuse
  split_ifs
  · exact inv.move (Operation.fenced_of_not_mem (by simp))
  · exact inv.finish (by simp)

theorem Inv.before (inv : Inv g s) (nowMs : ℤ) (room : Bool) : Inv g (s.before i o nowMs room) := by
  unfold State.before
  cases snapshot : s.lease.snapshotForWrite nowMs with
  | none => exact inv.refuse
  | some f =>
    obtain rfl := Lease.eq_of_snapshotForWrite snapshot
    cases room with
    | false => exact inv.refuse
    | true => exact inv.move fun _ => ⟨inv.generation, inv.epoch⟩

theorem Inv.lease (inv : Inv g s) {env : Envelope} {nowMs : ℤ} {lease : Lease}
    (one : env.generation = g) (ok : s.lease.apply env nowMs = .ok lease) :
    Inv g { s with lease := lease } := by
  obtain ⟨generation, epoch, forward⟩ := Lease.apply_ok ok
  have same := inv.generation
  have nonneg := inv.epoch
  exact ⟨generation.trans one, by rw [epoch]; omega, inv.ops, inv.latest⟩

theorem Inv.step {a : Action} (inv : Inv g s) (one : OneGeneration g s a)
    (h : step s a = some u) : Inv g u := by
  have fence {i : ℕ} {o : Operation} (ho : s.ops[i]? = some o) : o.Fenced g :=
    inv.ops o (List.mem_of_getElem? ho)
  cases opStep_of_step h with
  | call =>
    exact ⟨inv.generation, inv.epoch,
      forall_mem_snoc inv.ops (Operation.fenced_of_not_mem (o := ⟨_, _, _, .called⟩) (by simp)),
      inv.latest⟩
  | before => exact inv.before _ _
  | @lock i o at_i ready =>
    refine ⟨inv.generation, inv.epoch, forall_mem_set inv.ops ?_, inv.latest⟩
    split_ifs at ready ⊢
    · exact (fence at_i).keep (by simp [ready]) _
    · exact Operation.fenced_of_not_mem (by simp)
  | verify at_i ready | mutate at_i ready => exact inv.move ((fence at_i).keep (by simp [ready]) _)
  | absent | refute | mutateFails | stampFails | appendFails => exact inv.finish (by simp)
  | stamp at_i ready ok =>
    obtain ⟨generation, epoch⟩ := fence at_i (by simp [ready])
    rw [generation] at ok
    refine ⟨inv.generation, inv.epoch,
      forall_mem_set inv.ops (Operation.fenced_of_not_mem (by simp)), ?_⟩
    simp only [generation]
    exact inv.latest.stamp ok
  | @append i o =>
    have done : Inv g (s.finish i o .acknowledged) := inv.finish (by simp)
    exact ⟨done.generation, done.epoch, done.ops, done.latest⟩
  | apply ok => exact inv.lease one ok
  | ignore => exact inv

end Steps

theorem fence_of_stamping {g : ℤ} {s : State} {a : Action} {f : ℤ × ℤ} (inv : Inv g s)
    (h : f ∈ stamping s a) : f.1 = g ∧ 0 ≤ f.2 := by
  unfold stamping at h
  split at h
  · split at h
    · next o ho =>
      split_ifs at h with ready
      · cases h
        exact inv.ops o (List.mem_of_getElem? ho) (by simp [ready])
      · cases h
    · cases h
  · cases h

/-- Take a node whose lease is of generation `g` and which has not stamped in it.  In any run in
which the lease moves only within the generation, every operation that has passed its last lease
check and mutated memory gets its stamp if and only if operations come to be stamped in the order of
the epochs they took. -/
theorem stamps_succeed_iff (s₀ s : State) (as : List Action) (pos : 0 < s₀.lease.generation)
    (nonneg : 0 ≤ s₀.lease.epoch) (idle : s₀.ops = [] ∧ s₀.stamps = [])
    (behind : s₀.sequencer.generation < s₀.lease.generation) :
    Run step (fun s a => OneGeneration s₀.lease.generation s a ∧ StampSucceeds s a) s₀ as s ↔
      Run step (fun s a => OneGeneration s₀.lease.generation s a ∧ InEpochOrder s a) s₀ as s := by
  apply Run.congr (Inv s₀.lease.generation)
  · exact ⟨rfl, nonneg, by simp [idle.1], .inl ⟨idle.2, behind⟩⟩
  · intro t a u inv allowed enabled
    exact inv.step allowed.1 enabled
  · intro t a inv _
    apply and_congr_right
    intro _
    refine forall₂_congr fun f hf => ?_
    obtain ⟨generation, epoch⟩ := fence_of_stamping inv hf
    rw [generation]
    exact inv.latest.stamp_isOk_iff pos epoch

/-- A node in generation 1, epoch 1, with a lease until 1000. -/
def freshNode : State where
  writerID := [97]
  lease := ⟨1, 1, 1000⟩
  sequencer := .new
  locks := []
  ops := []
  log := []
  stamps := []

/-- A SET of a key of one byte. -/
def someKey (key : UInt8) : DurableOperation where
  dmap := [100]
  key := [key]
  hkey := key.toNat
  entry := some ⟨[1], 0, 0⟩
  fenceGeneration := 0
  fenceEpoch := 0

/-- Two SETs on different fragments, one after the other, with an epoch change in between. -/
def orderedRun : List Action :=
  [.call .set 0 (someKey 1), .before 0 0 true, .lock 0, .verify 0 0, .mutate 0 true, .stamp 0,
    .append 0 true 0, .apply ⟨.primary, 1, 2, 1000⟩ 0, .call .set 1 (someKey 2), .before 1 0 true,
    .lock 1, .verify 1 0, .mutate 1 true, .stamp 1]

theorem stamps_succeed_in_order :
    ∃ s, Run step (fun s a => OneGeneration 1 s a ∧ StampSucceeds s a) freshNode orderedRun s ∧
      s.stamps = [(1, 1), (1, 2)] := by
  obtain ⟨s, run, stamps⟩ := Run.exists_of_exec step
    (fun s a => OneGeneration 1 s a ∧ InEpochOrder s a) freshNode orderedRun
    (fun s => s.stamps = [(1, 1), (1, 2)]) (by decide +kernel)
  exact ⟨s, (stamps_succeed_iff freshNode s orderedRun (by decide) (by decide) ⟨rfl, rfl⟩
    (by decide)).2 run, stamps⟩

/-- The first SET takes its fence in epoch 1 and waits for its lock; the second one takes its fence
in epoch 2 and is stamped first. -/
def epochAdvanceRun : List Action :=
  [.call .set 0 (someKey 1), .before 0 0 true, .apply ⟨.primary, 1, 2, 1000⟩ 0,
    .call .set 1 (someKey 2), .before 1 0 true, .lock 1, .verify 1 0, .mutate 1 true, .stamp 1,
    .lock 0, .verify 0 0, .mutate 0 true, .stamp 0]

/-- The lease check accepts the first SET, its mutation succeeds, and the sequencer refuses it. -/
theorem epoch_advance_kills_write :
    ∃ s, Run step (OneGeneration 1) freshNode epochAdvanceRun s ∧
      (s.ops.map Operation.pc)[0]? = some .fatal := by
  apply Run.exists_of_exec
  decide +kernel

end OlricStack.Node
