import OlricStack.Node.Publish

/-!
# Refilling on a read miss

On the owner of a key a GET that misses asks the durable side without the fragment lock and then,
under the lock, stores what it was told if the key is still absent (`Get` in the dmap fork).  An
absent key does not mean that nothing has happened since: a SET or DEL acknowledged between the load
and the refill is undone (`refill_revives_deleted`); without one, what is resident is what was last
acknowledged (`resident_is_acknowledged`).
-/

namespace OlricStack.Node

open Transition

/-- The deadline has passed; no deadline is stored as zero. -/
def isKeyExpired (ttl nowMs : ℤ) : Bool := ttl ≠ 0 && decide (nowMs ≥ ttl)

/-- How far a GET has come. -/
inductive GetPc
  | called
  | missed
  /-- `LoadOnMiss` saw the durable state after `mutations` acknowledged mutations -/
  | loaded (found : Option StoredEntry) (mutations : ℕ)
  | returned (entry : Option StoredEntry)
deriving DecidableEq, Repr

/-- One key on its owner. -/
structure KeyState where
  resident : Option StoredEntry
  /-- the entry of the last acknowledged SET, unless a DEL was acknowledged after it -/
  durable : Option StoredEntry
  /-- how many SETs and DELs have been acknowledged -/
  mutations : ℕ
  gets : List GetPc
deriving DecidableEq, Repr

/-- What happens to a key and to the reads of it. -/
inductive KeyOp
  /-- a SET or DEL from lock to unlock, acknowledged -/
  | set (entry : StoredEntry)
  | delete
  /-- the entry is evicted from memory -/
  | evict
  | get
  /-- the lookup of a GET, under the read lock -/
  | lookup (i : ℕ) (nowMs : ℤ)
  /-- the instant at which `LoadOnMiss` sees the durable state -/
  | load (i : ℕ) (nowMs : ℤ)
  /-- the second look under the lock, and the refill -/
  | refill (i : ℕ)
deriving DecidableEq, Repr

/-- One action on the key. -/
def refillStep (s : KeyState) : KeyOp → Option KeyState
  | .set entry =>
    some { s with resident := some entry, durable := some entry, mutations := s.mutations + 1 }
  | .delete => some { s with resident := none, durable := none, mutations := s.mutations + 1 }
  | .evict => some { s with resident := none }
  | .get => some { s with gets := s.gets ++ [.called] }
  | .lookup i nowMs =>
    match s.gets[i]? with
    | some .called =>
      let pc : GetPc :=
        match s.resident with
        | some entry => if isKeyExpired entry.ttl nowMs then .missed else .returned (some entry)
        | none => .missed
      some { s with gets := s.gets.set i pc }
    | _ => none
  | .load i nowMs =>
    match s.gets[i]? with
    | some .missed =>
      let found := s.durable.filter fun entry => !(0 < entry.ttl && nowMs ≥ entry.ttl)
      some { s with gets := s.gets.set i (.loaded found s.mutations) }
    | _ => none
  | .refill i =>
    match s.gets[i]? with
    | some (.loaded none _) => some { s with gets := s.gets.set i (.returned none) }
    | some (.loaded (some entry) _) =>
      match s.resident with
      | some existing => some { s with gets := s.gets.set i (.returned (some existing)) }
      | none =>
        some { s with resident := some entry, gets := s.gets.set i (.returned (some entry)) }
    | _ => none

/-- What is resident is the entry of the last acknowledged SET, not followed by a DEL. -/
def Faithful (s : KeyState) : Prop := ∀ entry ∈ s.resident, s.durable = some entry

/-- The count of acknowledged mutations at the load of a GET that is about to store what it
loaded. -/
def refilling (s : KeyState) : KeyOp → Option ℕ
  | .refill i =>
    match s.gets[i]?, s.resident with
    | some (.loaded (some _) mutations), none => some mutations
    | _, _ => none
  | _ => none

/-- Where a refill finds the key absent, nothing has been acknowledged since the load. -/
def NothingSince (s : KeyState) (a : KeyOp) : Prop := ∀ n ∈ refilling s a, s.mutations = n

instance (s : KeyState) (a : KeyOp) : Decidable (NothingSince s a) := by
  unfold NothingSince
  infer_instance

/-- What a GET has loaded was the durable state then, and still is if nothing was acknowledged. -/
def LoadedThen (s : KeyState) : GetPc → Prop
  | .loaded (some entry) mutations =>
    mutations ≤ s.mutations ∧ (s.mutations = mutations → s.durable = some entry)
  | _ => True

/-- A mutation leaves every load behind. -/
theorem LoadedThen.mutate {s u : KeyState} {pc : GetPc} (h : LoadedThen s pc)
    (next : u.mutations = s.mutations + 1) : LoadedThen u pc := by
  unfold LoadedThen at h ⊢
  split
  · exact ⟨by rw [next]; omega, fun same => by rw [next] at same; omega⟩
  · trivial

/-- What holds in every run: memory and what was loaded are not older than the durable entry. -/
structure RefillInv (s : KeyState) : Prop where
  faithful : Faithful s
  loads : ∀ pc ∈ s.gets, LoadedThen s pc

theorem RefillInv.step {s u : KeyState} {a : KeyOp} (inv : RefillInv s) (ok : NothingSince s a)
    (h : refillStep s a = some u) : RefillInv u := by
  cases a with
  | set entry =>
    cases h
    exact ⟨fun e he => he, fun pc hpc => (inv.loads pc hpc).mutate rfl⟩
  | delete =>
    cases h
    exact ⟨fun e he => (nomatch he), fun pc hpc => (inv.loads pc hpc).mutate rfl⟩
  | evict =>
    cases h
    exact ⟨fun e he => (nomatch he), inv.loads⟩
  | get =>
    cases h
    exact ⟨inv.faithful, forall_mem_snoc inv.loads (show LoadedThen s .called from trivial)⟩
  | lookup i nowMs =>
    simp only [refillStep] at h
    split at h
    · cases h
      refine ⟨inv.faithful, forall_mem_set inv.loads ?_⟩
      split
      · split_ifs <;> trivial
      · trivial
    · cases h
  | load i nowMs =>
    simp only [refillStep] at h
    split at h
    · cases h
      refine ⟨inv.faithful, forall_mem_set inv.loads ?_⟩
      cases found : s.durable.filter fun entry => !(0 < entry.ttl && nowMs ≥ entry.ttl) with
      | none => trivial
      | some entry => exact ⟨le_rfl, fun _ => (Option.filter_eq_some_iff.1 found).1⟩
    · cases h
  | refill i =>
    simp only [refillStep] at h
    split at h
    · cases h
      exact ⟨inv.faithful, forall_mem_set inv.loads trivial⟩
    · next entry mutations hi =>
      split at h
      · cases h
        exact ⟨inv.faithful, forall_mem_set inv.loads trivial⟩
      · next absent =>
        cases h
        have unchanged : s.mutations = mutations := ok mutations (by simp [refilling, hi, absent])
        refine ⟨fun e he => ?_, forall_mem_set inv.loads trivial⟩
        cases he
        exact (inv.loads _ (List.mem_of_getElem? hi)).2 unchanged
    · cases h

/-- Along a run in which no SET or DEL is acknowledged between the load of a GET and a refill that
finds the key absent, what is resident after every step is what was last acknowledged; in
particular a deleted entry does not come back. -/
theorem resident_is_acknowledged {s₀ s : KeyState} {as : List KeyOp} (faithful : Faithful s₀)
    (idle : s₀.gets = []) (run : Run refillStep NothingSince s₀ as s) :
    (∀ entry ∈ s.resident, s.durable = some entry) ∧ (s.durable = none → s.resident = none) := by
  have inv := run.invariant RefillInv ⟨faithful, by simp [idle]⟩
    fun t a u inv ok enabled => inv.step ok enabled
  refine ⟨inv.faithful, fun deleted => ?_⟩
  apply Option.eq_none_iff_forall_not_mem.2
  intro entry mem
  have := inv.faithful entry mem
  rw [deleted] at this
  cases this

/-- A key that is stored but not in memory, as after a restart. -/
def coldKey : KeyState := ⟨none, some ⟨[1], 0, 0⟩, 0, []⟩

/-- A GET refills the key, then it is deleted. -/
def refillRun : List KeyOp := [.get, .lookup 0 0, .load 0 0, .refill 0, .delete]

theorem resident_is_acknowledged_refill :
    ∃ s, Run refillStep NothingSince coldKey refillRun s ∧
      s.durable = none ∧ s.resident = none := by
  obtain ⟨s, run, deleted⟩ := Run.exists_of_exec refillStep NothingSince coldKey refillRun
    (fun s => s.durable = none) (by decide +kernel)
  have faithful : Faithful coldKey := fun e he => nomatch he
  exact ⟨s, run, deleted, (resident_is_acknowledged faithful rfl run).2 deleted⟩

/-- The DEL is acknowledged between the load and the refill of a GET: the deleted entry is resident
again. -/
theorem refill_revives_deleted :
    ∃ s, Run refillStep anyAction coldKey [.get, .lookup 0 0, .load 0 0, .delete, .refill 0] s ∧
      s.durable = none ∧ s.resident = some ⟨[1], 0, 0⟩ := by
  apply Run.exists_of_exec
  decide +kernel

end OlricStack.Node
