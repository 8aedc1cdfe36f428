import Mathlib.Data.Int.Notation
import Mathlib.Data.List.Nodup
import Mathlib.Order.Basic

/-!
# The owners of a partition

`distributePrimaryCopies` and `distributeBackups` of the routing table, by which the coordinator
computes the owners lists that it pushes to the members, and `ensureOwnership`, by which it takes
in who still has data.  The loops prune the lists in place; what they compute is said by
`distributePrimaryCopies_eq` and `distributeBackups_eq`.  The last member of the primary list is
the owner of the partition, those before it are previous owners.
-/

namespace OlricStack.Cluster

/-- `discovery.Member`. -/
structure Member where
  name : String
  nameHash : ℕ
  id : ℕ
  birthdate : ℤ
deriving DecidableEq

/-- `CompareByID`. -/
def Member.compareByID (m other : Member) : Bool := m.id == other.id

/-- `CompareByName`; the hashes stand for the names. -/
def Member.compareByName (m other : Member) : Bool := m.nameHash == other.nameHash

/-- What the coordinator finds out about the members: the alive member of a name, and the number of
keys of the partition there, if the member answers. -/
structure View where
  findMemberByName : String → Option Member
  lengthOfPart : String → Option ℕ

/-- The loops over `owners` that remove the elements they do not want at the index `i`. -/
def prune {α : Type*} (keep : α → Bool) (owners : List α) (i : ℕ) : List α :=
  if h : i < owners.length then
    if keep owners[i] then prune keep owners (i + 1) else prune keep (owners.eraseIdx i) i
  else owners
termination_by owners.length - i
decreasing_by
  · omega
  · rw [List.length_eraseIdx_of_lt h]
    omega

/-- An owner that is in the cluster and has not joined again since. -/
def View.alive (view : View) (owner : Member) : Bool :=
  match view.findMemberByName owner.name with
  | none => false
  | some current => owner.compareByID current

/-- An owner that has data, or does not answer. -/
def View.occupied (view : View) (owner : Member) : Bool :=
  match view.lengthOfPart owner.name with
  | none => true
  | some count => count != 0

/-- The new owner goes to the end, from where it is or from outside. -/
def appendOwner (owners : List Member) (newOwner : Member) : List Member :=
  match owners.findIdx? fun owner => owner.compareByID newOwner with
  | some i => owners.eraseIdx i ++ [newOwner]
  | none => owners ++ [newOwner]

/-- `distributePrimaryCopies`, with the owner that the hash ring gives. -/
def distributePrimaryCopies (view : View) (newOwner : Member) (owners : List Member) :
    List Member :=
  if owners.length = 0 then [newOwner]
  else
    let owners := prune view.alive owners 0
    let owners := prune view.occupied owners 0
    appendOwner owners newOwner

/-- Errors of the hash ring. -/
inductive RingError
  | insufficientMemberCount
  | other

/-- `getReplicaOwners`, over `GetClosestNForPartition`. -/
def getReplicaOwners (closest : ℕ → Except RingError (List Member)) :
    ℕ → Except RingError (List Member)
  | 0 => .error .insufficientMemberCount
  | i + 1 =>
    match closest (i + 1) with
    | .error .insufficientMemberCount => getReplicaOwners closest i
    | .error err => .error err
    | .ok newOwners => .ok newOwners

/-- `distributeBackups`; `none` is the panic on an empty answer of the ring. -/
def distributeBackups (view : View) (closest : ℕ → Except RingError (List Member))
    (replicaCount : ℕ) (owners : List Member) : Option (List Member) :=
  match getReplicaOwners closest replicaCount with
  | .error _ => some []
  | .ok [] => none
  | .ok (_ :: newOwners) =>
    if owners.length = 0 then some newOwners
    else
      let owners := prune view.alive owners 0
      let owners := prune view.occupied owners 0
      some (newOwners.foldl appendOwner owners)

/-- `ensureOwnership` of `processLeftOverDataReports`. -/
def ensureOwnership (owners : List Member) (member : Member) : List Member :=
  if owners.any fun owner => member.compareByID owner then owners else member :: owners

/-- `processLeftOverDataReports` for one partition, with the members that have reported data. -/
def processLeftOverDataReports (reporters owners : List Member) : List Member :=
  reporters.foldl ensureOwnership owners

/-! ## The loops -/

theorem prune_eq_filter_drop {α : Type*} (keep : α → Bool) (owners : List α) (i : ℕ) :
    prune keep owners i = owners.take i ++ (owners.drop i).filter keep := by
  fun_induction prune keep owners i with
  | case1 owners i h kept ih =>
    rw [ih, List.drop_eq_getElem_cons h, List.filter_cons_of_pos kept,
      List.take_succ_eq_append_getElem h, List.append_assoc, List.singleton_append]
  | case2 owners i h dropped ih =>
    have short : (owners.take i).length = i := List.length_take_of_le (Nat.le_of_lt h)
    rw [ih, List.drop_eq_getElem_cons h, List.filter_cons_of_neg dropped,
      List.eraseIdx_eq_take_drop_succ, List.take_left' short, List.drop_left' short]
  | case3 owners i h =>
    have le := Nat.le_of_not_lt h
    rw [List.take_of_length_le le, List.drop_eq_nil_of_le le, List.filter_nil, List.append_nil]

theorem prune_zero {α : Type*} (keep : α → Bool) (owners : List α) :
    prune keep owners 0 = owners.filter keep := by
  rw [prune_eq_filter_drop, List.take_zero, List.drop_zero, List.nil_append]

/-- No two members of the list have the same ID. -/
def Distinct (owners : List Member) : Prop := (owners.map Member.id).Nodup

instance (owners : List Member) : Decidable (Distinct owners) :=
  inferInstanceAs (Decidable (List.Nodup _))

theorem Distinct.filter {owners : List Member} (h : Distinct owners) (p : Member → Bool) :
    Distinct (owners.filter p) :=
  h.sublist (List.filter_sublist.map _)

theorem eraseP_eq_filter {owners : List Member} (h : Distinct owners) (new : Member) :
    owners.eraseP (fun owner => owner.compareByID new) =
      owners.filter fun owner => owner.id != new.id := by
  induction owners with
  | nil => rfl
  | cons owner owners ih =>
    obtain ⟨fresh, rest⟩ := List.nodup_cons.1 h
    by_cases same : owner.id = new.id
    · have others : ∀ o ∈ owners, (o.id != new.id) = true := by
        intro o mem
        rw [bne_iff_ne, ← same]
        rintro found
        exact fresh (found ▸ List.mem_map_of_mem mem)
      rw [List.eraseP_cons_of_pos (by simpa [Member.compareByID] using same),
        List.filter_cons_of_neg (by simpa using same), List.filter_eq_self.2 others]
    · rw [List.eraseP_cons_of_neg (by simpa [Member.compareByID] using same),
        List.filter_cons_of_pos (by simpa using same), ih rest]

theorem appendOwner_eq {owners : List Member} (h : Distinct owners) (new : Member) :
    appendOwner owners new = (owners.filter fun owner => owner.id != new.id) ++ [new] := by
  rw [← eraseP_eq_filter h, List.eraseP_eq_eraseIdx, appendOwner]
  cases List.findIdx? (fun owner => owner.compareByID new) owners <;> rfl

theorem Distinct.appendOwner {owners : List Member} (h : Distinct owners) (new : Member) :
    Distinct (appendOwner owners new) := by
  rw [appendOwner_eq h, Distinct, List.map_append, List.map_singleton]
  refine (h.filter _).append (List.nodup_singleton _) (List.disjoint_singleton.2 fun listed => ?_)
  obtain ⟨owner, mem, same⟩ := List.mem_map.1 listed
  exact bne_iff_ne.1 (List.mem_filter.1 mem).2 same

theorem getLast?_appendOwner (owners : List Member) (new : Member) :
    (appendOwner owners new).getLast? = some new := by
  unfold appendOwner
  split <;> exact List.getLast?_concat

theorem foldl_appendOwner_eq {owners news : List Member} (h : Distinct owners)
    (distinct : Distinct news) :
    news.foldl appendOwner owners =
      (owners.filter fun owner => owner.id ∉ news.map Member.id) ++ news := by
  induction news generalizing owners with
  | nil => simp
  | cons new news ih =>
    obtain ⟨fresh, rest⟩ := List.nodup_cons.1 distinct
    rw [List.foldl_cons, ih (h.appendOwner new) rest, appendOwner_eq h, List.filter_append,
      List.filter_filter, List.filter_cons_of_pos (by simpa using fresh), List.filter_nil,
      List.append_assoc, List.singleton_append]
    congr 1
    refine List.filter_congr fun owner _ => ?_
    rw [Bool.eq_iff_iff]
    simp only [Bool.and_eq_true, decide_eq_true_eq, bne_iff_ne, List.map_cons, List.mem_cons,
      not_or, and_comm]

/-! ## What the coordinator computes -/

/-- The owners that are kept are those that are alive and not known to be empty; the owner that the
ring gives is the last one. -/
theorem distributePrimaryCopies_eq {owners : List Member} (h : Distinct owners) (view : View)
    (new : Member) :
    distributePrimaryCopies view new owners =
      (owners.filter fun owner => view.alive owner && view.occupied owner && owner.id != new.id) ++
        [new] := by
  unfold distributePrimaryCopies
  split_ifs with first
  · rw [List.length_eq_zero_iff.1 first]
    rfl
  · simp only [prune_zero]
    rw [appendOwner_eq ((h.filter _).filter _), List.filter_filter, List.filter_filter]
    congr 1
    refine List.filter_congr fun owner _ => ?_
    cases view.alive owner <;> cases view.occupied owner <;> simp

theorem Distinct.distributePrimaryCopies {owners : List Member} (h : Distinct owners) (view : View)
    (new : Member) : Distinct (distributePrimaryCopies view new owners) := by
  unfold Cluster.distributePrimaryCopies
  split_ifs with first
  · exact List.nodup_singleton _
  · simp only [prune_zero]
    exact ((h.filter _).filter _).appendOwner new

theorem getLast?_distributePrimaryCopies (view : View) (new : Member) (owners : List Member) :
    (distributePrimaryCopies view new owners).getLast? = some new := by
  unfold distributePrimaryCopies
  split_ifs
  · rfl
  · exact getLast?_appendOwner _ new

/-- What is assumed of the hash ring: asked for the members closest to the partition, it gives the
first ones of `ring`, the owner at its head, and says so if there are too few. -/
structure ClosestOf (ring : List Member) (closest : ℕ → Except RingError (List Member)) : Prop where
  enough : ∀ n, 0 < n → n ≤ ring.length → closest n = .ok (ring.take n)
  few : ∀ n, ring.length < n → closest n = .error .insufficientMemberCount

theorem ClosestOf.getReplicaOwners {ring : List Member}
    {closest : ℕ → Except RingError (List Member)} (answers : ClosestOf ring closest)
    (populated : ring ≠ []) {replicaCount : ℕ} (pos : 0 < replicaCount) :
    getReplicaOwners closest replicaCount = .ok (ring.take replicaCount) := by
  induction replicaCount with
  | zero => cases pos
  | succ n ih =>
    by_cases enough : n + 1 ≤ ring.length
    · simp only [Cluster.getReplicaOwners, answers.enough _ pos enough]
    · have few : ring.length ≤ n := Nat.le_of_not_lt enough
      have pos' : 0 < n := Nat.lt_of_lt_of_le (List.length_pos_iff.2 populated) few
      simp only [Cluster.getReplicaOwners, answers.few _ (Nat.lt_succ_of_le few)]
      rw [ih pos', List.take_of_length_le few,
        List.take_of_length_le (Nat.le_succ_of_le few)]

/-- The backups that are kept are those that are alive and not known to be empty; the members after
the owner on the ring, as many as the replica count wants and the cluster has, are the last ones. -/
theorem distributeBackups_eq {owners ring : List Member} (h : Distinct owners)
    (distinct : Distinct ring) (populated : ring ≠ [])
    {closest : ℕ → Except RingError (List Member)} (answers : ClosestOf ring closest)
    {replicaCount : ℕ} (pos : 0 < replicaCount) (view : View) :
    distributeBackups view closest replicaCount owners = some
      ((owners.filter fun owner => view.alive owner && view.occupied owner &&
          decide (owner.id ∉ ((ring.take replicaCount).tail.map Member.id))) ++
        (ring.take replicaCount).tail) := by
  unfold distributeBackups
  rw [answers.getReplicaOwners populated pos]
  obtain ⟨primary, others, rfl⟩ := List.exists_cons_of_ne_nil populated
  obtain ⟨n, rfl⟩ : ∃ n, replicaCount = n + 1 := ⟨replicaCount - 1, by omega⟩
  have distinct' : Distinct (others.take n) :=
    (List.nodup_cons.1 distinct).2.sublist ((List.take_sublist n others).map _)
  rw [List.take_succ_cons, List.tail_cons]
  simp only [prune_zero]
  split_ifs with first
  · rw [List.length_eq_zero_iff.1 first]
    rfl
  · rw [foldl_appendOwner_eq ((h.filter _).filter _) distinct', List.filter_filter,
      List.filter_filter]
    congr 2
    refine List.filter_congr fun owner _ => ?_
    cases view.alive owner <;> cases view.occupied owner <;> simp

/-- Three replicas are wanted in a cluster of two members, and the third one has left. -/
theorem distributeBackups_eq_three :
    distributeBackups ⟨fun _ => none, fun _ => none⟩
      (fun n => if n ≤ 2 then .ok ([⟨"a", 1, 11, 1⟩, ⟨"b", 2, 12, 2⟩].take n)
        else .error .insufficientMemberCount) 3 [⟨"c", 3, 13, 3⟩] =
        some [⟨"b", 2, 12, 2⟩] := by
  have answers : ClosestOf [⟨"a", 1, 11, 1⟩, ⟨"b", 2, 12, 2⟩] fun n =>
      if n ≤ 2 then .ok ([⟨"a", 1, 11, 1⟩, ⟨"b", 2, 12, 2⟩].take n)
      else .error .insufficientMemberCount :=
    ⟨fun _ _ enough => if_pos enough, fun _ few => if_neg (Nat.not_le.2 few)⟩
  exact (distributeBackups_eq (by decide) (by decide) (List.cons_ne_nil _ _) answers (by decide)
    _).trans rfl

/-! ## Left-over data -/

theorem subset_ensureOwnership (owners : List Member) (member : Member) :
    owners ⊆ ensureOwnership owners member := by
  unfold ensureOwnership
  split_ifs
  · exact List.Subset.refl _
  · exact List.subset_cons_self _ _

theorem id_mem_ensureOwnership (owners : List Member) (member : Member) :
    member.id ∈ (ensureOwnership owners member).map Member.id := by
  unfold ensureOwnership
  split_ifs with known
  · obtain ⟨owner, mem, same⟩ := List.any_eq_true.1 known
    exact List.mem_map.2 ⟨owner, mem, (beq_iff_eq.1 same).symm⟩
  · exact List.mem_cons_self

theorem Distinct.ensureOwnership {owners : List Member} (h : Distinct owners) (member : Member) :
    Distinct (ensureOwnership owners member) := by
  unfold Cluster.ensureOwnership
  split_ifs with known
  · exact h
  · refine List.nodup_cons.2 ⟨fun listed => known ?_, h⟩
    obtain ⟨owner, mem, same⟩ := List.mem_map.1 listed
    exact List.any_eq_true.2 ⟨owner, mem, beq_iff_eq.2 same.symm⟩

theorem getLast?_ensureOwnership {owners : List Member} {last : Member}
    (h : owners.getLast? = some last) (member : Member) :
    (ensureOwnership owners member).getLast? = some last := by
  unfold ensureOwnership
  split_ifs
  · exact h
  · rw [List.getLast?_cons, h]
    rfl

/-- What `processLeftOverDataReports` makes of an owners list. -/
structure Completed (reporters owners owners' : List Member) : Prop where
  keeps : owners ⊆ owners'
  adds : ∀ member ∈ reporters, member.id ∈ owners'.map Member.id
  distinct : Distinct owners → Distinct owners'
  last : ∀ last, owners.getLast? = some last → owners'.getLast? = some last

theorem processLeftOverDataReports_spec (reporters owners : List Member) :
    Completed reporters owners (processLeftOverDataReports reporters owners) := by
  induction reporters generalizing owners with
  | nil => exact ⟨List.Subset.refl _, fun _ mem => (List.not_mem_nil mem).elim, id, fun _ => id⟩
  | cons member reporters ih =>
    obtain ⟨keeps, adds, distinct, last⟩ := ih (ensureOwnership owners member)
    refine ⟨List.Subset.trans (subset_ensureOwnership owners member) keeps, ?_,
      fun h => distinct (h.ensureOwnership member),
      fun l h => last l (getLast?_ensureOwnership h member)⟩
    intro m mem
    rcases List.mem_cons.1 mem with rfl | later
    · exact List.map_subset _ keeps (id_mem_ensureOwnership owners m)
    · exact adds m later

end OlricStack.Cluster
