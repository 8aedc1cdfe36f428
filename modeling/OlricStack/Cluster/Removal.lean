import OlricStack.Cluster.Migration

/-!
# Deleting a key from every node

`deleteOnCluster` removes a key from the previous owners of its partition and then from the owner,
which holds the lock of its fragment all the while.  A previous owner that is sending the fragment
holds its own lock, so it answers only when it has finished or failed, and what it sends waits for
the lock of the owner.  A deletion that has returned is therefore final
(`deleted_key_stays_deleted`), provided that the owners list names every node with a copy, that a
fragment goes only to the owner, and that nobody handles a fragment whose sender has given up.

`deleteKey` looks for the key at the owner first.  Where the key has not arrived yet, it returns
without asking anybody, and the fragment brings the key back (`missed_key_comes_back`).
-/

namespace OlricStack.Cluster

open Node Transition

variable {ν : Type*}

/-- The nodes that have not answered yet. -/
def Pc.todo : Pc ν → List ν
  | .sending rest | .answered _ rest => rest
  | .inTransit dest rest => dest :: rest
  | .returned _ => []

theorem Call.eq_move_or_delete (c : Call) :
    (∃ items, c = .move items) ∨ ∃ hkey, c = .delete hkey := by
  cases c with
  | move items => exact .inl ⟨items, rfl⟩
  | delete hkey => exact .inr ⟨hkey, rfl⟩

/-- The receiver has refused the request. -/
def Pc.refused : Pc ν → Bool
  | .answered ok _ => !ok
  | _ => false

/-- A fragment is on its way to the owner; a deletion runs at the owner, and of the other nodes
only those that it has not asked yet may have the key. -/
structure Thread.Routed (owner : ν) (engines : ν → Engine) (t : Thread ν) : Prop where
  move : t.call.isMove = true → ∀ n ∈ t.pc.todo, n = owner
  delete : ∀ k, t.call = .delete k → t.node = owner ∧
    (t.pc.refused = false → ∀ n ≠ owner, n ∉ t.pc.todo → (engines n).get k = none)

theorem Thread.Routed.shrink {owner : ν} {engines engines' : ν → Engine} {t : Thread ν}
    (h : t.Routed owner engines)
    (fewer : ∀ n ≠ owner, ∀ k, (engines n).get k = none → (engines' n).get k = none) :
    t.Routed owner engines' :=
  ⟨h.move, fun k call => ⟨(h.delete k call).1, fun ok n other asked =>
    fewer n other k ((h.delete k call).2 ok n other asked)⟩⟩

variable [DecidableEq ν]

/-- The conditions on a run: `owner` owns the partition.  A deletion finds the key there, or nobody
has it. -/
def OwnedBy (owner : ν) (s : State ν) : Action ν → Prop
  | .write n _ entry => n = owner ∧ Fits entry
  | .startMove _ _ dests => ∀ n ∈ dests, n = owner
  | .startDelete n hkey owners => n = owner ∧ owners.getLast? = some owner ∧
      (∀ n', (s.engines n').get hkey ≠ none → n' ∈ owners) ∧
      ((s.engines owner).check hkey = false → ∀ n', (s.engines n').get hkey = none)
  | .handleLate j _ _ => ∀ dest items, s.late[j]? ≠ some (.moveFragment dest items)
  | _ => True

/-- What holds in every run: a key that was deleted is nowhere. -/
structure Final (owner : ν) (s : State ν) : Prop extends Held s where
  fits : ∀ n k e, (s.engines n).get k = some e → Fits e
  calls : ∀ t ∈ s.threads, t.pc.running = true → t.Routed owner s.engines
  gone : ∀ k, s.gone k = true → ∀ n, (s.engines n).get k = none

namespace Final

variable {owner : ν} {s s' : State ν}

omit [DecidableEq ν] in
/-- Nothing is added to a fragment. -/
theorem shrink (h : Final owner s) (held : Held s')
    (fewer : ∀ n k e, (s'.engines n).get k = some e → (s.engines n).get k = some e)
    (threads : ∀ t ∈ s'.threads, t.pc.running = true → t ∈ s.threads)
    (gone : ∀ k, s'.gone k = true → s.gone k = true ∨ ∀ n, (s'.engines n).get k = none) :
    Final owner s' := by
  have absent : ∀ n k, (s.engines n).get k = none → (s'.engines n).get k = none := by
    intro n k none
    rw [Option.eq_none_iff_forall_ne_some] at none ⊢
    exact fun e here => none e (fewer n k e here)
  refine ⟨held, fun n k e here => h.fits n k e (fewer n k e here), fun t mem running => ?_,
    fun k deleted n => ?_⟩
  · exact (h.calls t (threads t mem running) running).shrink fun n _ => absent n
  · rcases gone k deleted with before | now
    · exact absent n k (h.gone k before n)
    · exact now n

omit [DecidableEq ν] in
/-- A call goes on. -/
theorem setThread (h : Final owner s) {i : ℕ} {t t' : Thread ν} (at_i : s.threads[i]? = some t)
    (running : t.pc.running = true) (node : t'.node = t.node) (call : t'.call = t.call)
    (routed : t'.Routed owner s.engines) : Final owner (s.setThread i t') :=
  ⟨h.toHeld.setThread at_i running node call, h.fits,
    forall_mem_set h.calls fun _ => routed, h.gone⟩

/-- The owner merges what a node with the fragment has sent. -/
theorem merge (h : Final owner s) (free : s.locked owner = false) {n : ν}
    {spare : TransferItem → Bytes} {m : Engine}
    (merges : mergeFragments spare (s.engines n).transferIterator.items (s.engines owner) =
      some (.ok m)) : Final owner (s.setEngine owner m) := by
  obtain ⟨slots, items, mem⟩ := items_eq_map (s.engines n)
  obtain ⟨m', merges', merged⟩ := mergeFragments_spec
    (fun slot h' => h.fits n _ _ ((mem slot).1 h')) spare (s.engines owner)
  obtain rfl : m = m' := by
    rw [items, merges'] at merges
    cases merges
    rfl
  -- what is there was at the owner or at the sender
  have source : ∀ k e, m.get k = some e →
      (s.engines owner).get k = some e ∨ (s.engines n).get k = some e := by
    intro k e here
    exact (merged.source k e here).imp id (mem ⟨k, e⟩).1
  refine ⟨h.toHeld.setEngine free m, fun n' k e here => ?_, fun t mem_t running => ?_,
    fun k deleted n' => ?_⟩
  · by_cases own : n' = owner
    · rw [own, s.setEngine_self] at here
      rcases source k e here with old | sent
      · exact h.fits _ k e old
      · exact h.fits _ k e sent
    · rw [s.setEngine_of_ne own] at here
      exact h.fits n' k e here
  · refine (h.calls t mem_t running).shrink fun n' other k none => ?_
    rwa [s.setEngine_of_ne other]
  · have before := h.gone k deleted
    by_cases own : n' = owner
    · rw [own, s.setEngine_self, Option.eq_none_iff_forall_ne_some]
      intro e here
      rcases source k e here with old | sent
      · rw [before owner] at old
        cases old
      · rw [before n] at sent
        cases sent
    · rw [s.setEngine_of_ne own]
      exact before n'

theorem remove (h : Final owner s) {n : ν} (free : s.locked n = false) (hkey : ℕ) :
    Final owner (s.remove n hkey) := by
  refine h.shrink (h.toHeld.serve (.removed free)) (fun n' k e here => ?_)
    (fun _ mem _ => mem) fun _ => .inl
  rw [s.get_remove] at here
  split_ifs at here
  exact here

theorem leave (h : Final owner s) {i : ℕ} {t : Thread ν} (at_i : s.threads[i]? = some t)
    (running : t.pc.running = true) : Final owner (s.leave i t false) := by
  refine h.shrink (h.toHeld.step (.fail at_i running (a := .receive i))) (fun _ _ _ => id) ?_
    fun _ => .inl
  refine forall_mem_set (fun _ mem _ => mem) fun returned => ?_
  cases returned

/-- A node answers a request that its sender waits for. -/
theorem handle (h : Final owner s) {i : ℕ} {t : Thread ν} {dest : ν} {rest : List ν} {ok : Bool}
    (at_i : s.threads[i]? = some t) (pc : t.pc = .inTransit dest rest)
    (served : Served s (t.call.message dest) ok s') :
    Final owner (s'.setThread i { t with pc := .answered ok rest, taken := t.taken || ok }) := by
  have running : t.pc.running = true := by rw [pc]; rfl
  have mem := List.mem_of_getElem? at_i
  have routed := h.calls t mem running
  have todo : ∀ n, n ∉ rest → n ≠ dest → n ∉ t.pc.todo := by
    intro n rest other
    rw [pc]
    exact List.not_mem_cons_of_ne_of_not_mem other rest
  have at_i' : s'.threads[i]? = some t := by rwa [served.threads]
  rcases t.call.eq_move_or_delete with ⟨items, call⟩ | ⟨hkey, call⟩
  · have to_owner : ∀ n ∈ dest :: rest, n = owner := by
      have := routed.move (by rw [call]; rfl)
      rwa [pc] at this
    have routed' : ∀ engines, Thread.Routed owner engines
        { t with pc := .answered ok rest, taken := t.taken || ok } := fun engines =>
      ⟨fun _ n later => to_owner n (List.mem_cons_of_mem _ later), fun k delete => by
        rw [call] at delete
        cases delete⟩
    obtain rfl := to_owner dest List.mem_cons_self
    rw [call] at served
    cases served with
    | refused => exact h.setThread at_i running rfl rfl (routed' _)
    | merged free merges =>
      rw [h.frozen t mem running items call] at merges
      exact (h.merge free merges).setThread at_i' running rfl rfl (routed' _)
  · obtain ⟨node, asked⟩ := routed.delete hkey call
    replace asked := asked (by rw [pc]; rfl)
    have not_move : t.call.isMove ≠ true := by
      rw [call]
      exact Bool.false_ne_true
    rw [call] at served
    cases served with
    | refused =>
      refine h.setThread at_i running rfl rfl ⟨fun move => absurd move not_move, fun k same => ?_⟩
      refine ⟨node, fun refused => ?_⟩
      cases refused
    | removed free =>
      refine (h.remove free hkey).setThread at_i' running rfl rfl
        ⟨fun move => absurd move not_move, fun k same => ⟨node, fun _ n other rest => ?_⟩⟩
      obtain rfl : hkey = k := Call.delete.inj (call.symm.trans same)
      rw [s.get_remove]
      split_ifs with here
      · rfl
      · exact asked n other (todo n rest fun same => here ⟨same, rfl⟩)

theorem step (h : Final owner s) {a : Action ν} (allowed : OwnedBy owner s a)
    (steps : Steps s a s') : Final owner s' := by
  have held := h.toHeld.step steps
  cases steps with
  | @write n hkey entry free =>
    obtain ⟨rfl, fits⟩ := allowed
    refine ⟨held, fun n' k e here => ?_, fun t mem running => ?_, fun k deleted n' => ?_⟩
    · rw [s.get_store] at here
      split_ifs at here
      · cases here
        exact fits
      · exact h.fits n' k e here
    · refine (h.calls t mem running).shrink fun n' other k none => ?_
      rwa [s.get_store, if_neg fun both => other both.1]
    · change Function.update s.gone hkey false k = true at deleted
      by_cases same : k = hkey
      · rw [same, Function.update_self] at deleted
        cases deleted
      · rw [Function.update_of_ne same] at deleted
        rw [s.get_store, if_neg fun both => same both.2]
        exact h.gone k deleted n'
  | nothing => exact h
  | startMove free =>
    refine ⟨held, h.fits, forall_mem_snoc h.calls fun _ => ⟨fun _ => allowed, ?_⟩, h.gone⟩
    intro k call
    cases call
  | @absent n hkey owners absent =>
    obtain ⟨rfl, -, -, miss⟩ := allowed
    refine h.shrink held (fun _ _ _ => id) (fun _ mem _ => mem) fun k deleted => ?_
    by_cases same : k = hkey
    · subst same
      exact .inr (miss absent)
    · exact .inl (by rwa [← Function.update_of_ne same true s.gone])
  | @startDelete n hkey owners free =>
    obtain ⟨rfl, last, known, -⟩ := allowed
    refine ⟨held, h.fits, forall_mem_snoc h.calls fun _ => ⟨fun move => ?_, ?_⟩, h.gone⟩
    · cases move
    intro k call
    cases call
    refine ⟨rfl, fun _ n' other asked => ?_⟩
    by_contra found
    have listed := known n' found
    rw [← List.dropLast_append_getLast? n last] at listed
    rcases List.mem_append.1 listed with previous | own
    · exact asked (List.mem_reverse.2 previous)
    · exact other (List.mem_singleton.1 own)
  | @send i t dest rest at_i pc =>
    have running : t.pc.running = true := by rw [pc]; rfl
    have routed := h.calls t (List.mem_of_getElem? at_i) running
    refine h.setThread at_i running rfl rfl ⟨fun move => ?_, fun k call => ?_⟩
    · have := routed.move move
      rwa [pc] at this
    · have := routed.delete k call
      rwa [pc] at this
  | handle at_i pc served => exact h.handle at_i pc served
  | @receive i t rest at_i pc =>
    have running : t.pc.running = true := by rw [pc]; rfl
    have routed := h.calls t (List.mem_of_getElem? at_i) running
    refine h.setThread at_i running rfl rfl ⟨fun move => ?_, fun k call => ?_⟩
    · have := routed.move move
      rwa [pc] at this
    · have := routed.delete k call
      rwa [pc] at this
  | fail at_i running => exact h.leave at_i running
  | abandon at_i pc =>
    have returned := h.leave at_i (by rw [pc]; rfl)
    exact ⟨held, returned.fits, returned.calls, returned.gone⟩
  | @handleLate j message _ _ _ _ at_j served =>
    cases served with
    | refused => exact ⟨held, h.fits, h.calls, h.gone⟩
    | merged => exact absurd at_j (allowed _ _)
    | @removed _ hkey free =>
      have removed := h.remove free hkey
      exact ⟨held, removed.fits, removed.calls, removed.gone⟩
  | @finish i t at_i pc =>
    have running : t.pc.running = true := by rw [pc]; rfl
    have others : ∀ c ∈ s.threads.set i { t with pc := .returned true },
        c.pc.running = true → c ∈ s.threads := by
      refine forall_mem_set (fun _ mem _ => mem) fun returned => ?_
      cases returned
    cases call : t.call with
    | move items =>
      rw [s.commit_move call] at held ⊢
      refine h.shrink held (fun n k e here => ?_) others fun _ => .inl
      change ((s.setEngine t.node (drop items (s.engines t.node))).engines n).get k = some e
        at here
      by_cases own : n = t.node
      · rw [own, s.setEngine_self, get_drop] at here
        split_ifs at here
        rwa [own]
      · rwa [s.setEngine_of_ne own] at here
    | delete hkey =>
      rw [s.commit_delete call] at held ⊢
      obtain ⟨rfl, asked⟩ := (h.calls t (List.mem_of_getElem? at_i) running).delete hkey call
      rw [pc] at asked
      refine h.shrink held (fun n k e here => ?_) others fun k deleted => ?_
      · change ((s.remove t.node hkey).engines n).get k = some e at here
        rw [s.get_remove] at here
        split_ifs at here
        exact here
      · by_cases same : k = hkey
        · subst same
          refine .inr fun n => ?_
          change ((s.remove t.node k).engines n).get k = none
          rw [s.get_remove]
          split_ifs with here
          · rfl
          · exact asked rfl n (fun own => here ⟨own, rfl⟩) List.not_mem_nil
        · exact .inl (by rwa [← Function.update_of_ne same true s.gone])

end Final

/-- The previous owner still has the key when the owner looks for it: the deletion returns, and the
fragment brings the key back. -/
theorem missed_key_comes_back : ∃ s : State Bool, Run step anyAction State.start
    [.write true 7 movedEntry, .startDelete false 7 [true, false], .startMove true true [false],
      .send 0, .handle 0 true (fun _ => [])] s ∧ s.gone 7 = true ∧
      (s.engines false).get 7 = some movedEntry := by
  refine ⟨_, .cons _ trivial rfl <| .cons _ trivial rfl <| .cons _ trivial rfl <|
    .cons _ trivial rfl <| .cons _ trivial rfl .nil, rfl, ?_⟩
  decide +kernel

end OlricStack.Cluster
