import Mathlib.Logic.Function.Basic
import OlricStack.Lib.Run
import OlricStack.Cluster.Routing

/-!
# Pushing the routing table

One partition and the members of the cluster.  A coordinator computes the owners list
(`fillRoutingTable`), pushes it to the members it knows, and takes those that still report data
into its own list (`updateRouting`).  Meanwhile the members write, receive and drop keys; a member
checks that it owns the partition some time before it stores a key.  Requests fail or are handled
after their sender has given up, and two members may take themselves for the coordinator.

When an update has succeeded and no other table was pushed since, the members agree on the owner,
and the list of the coordinator has every member with data, so that the next table keeps it
(`settled_table_has_all_data`), provided that no write stores after the table that took the
ownership from its member (`missed_write`) and that the owner has not joined again under its name
between the look at the ring and the look at the members (`rejoined_owner_missed`).  No list ever
has a member twice (`owners_distinct`).
-/

namespace OlricStack.Cluster.Routing

open Transition

/-- A running `updateRouting`: what it pushes, to whom, and the members that reported data. -/
structure Update where
  table : List Member
  asked : List Member
  waiting : List Member
  reports : List Member
  failed : Bool

/-- A member has taken the table and reports its keys. -/
def Update.take (u : Update) (m : Member) (length : ℕ) (answered : Bool) : Update :=
  { u with
    waiting := u.waiting.filter (· ≠ m)
    reports := if length ≠ 0 then u.reports ++ [m] else u.reports
    failed := u.failed || !answered }

/-- The request to a member has failed. -/
def Update.fail (u : Update) (m : Member) : Update :=
  { u with waiting := u.waiting.filter (· ≠ m), failed := true }

/-- What has become of the last update. -/
inductive Phase
  /-- a table was pushed that is not the one of a running or finished update -/
  | unsettled
  | pushing (c : Member)
  | settled (c : Member) (asked : List Member)
deriving DecidableEq

/-- Another coordinator's push ends what was settled. -/
def Phase.afterPush (p : Phase) (c : Member) : Phase :=
  if p = .pushing c then p else .unsettled

/-- A failed update settles nothing. -/
def Phase.afterFailure (p : Phase) (c : Member) : Phase :=
  if p = .pushing c then .unsettled else p

/-- The last answer settles the update, if no other has come between. -/
def Phase.afterSuccess (p : Phase) (c : Member) (asked : List Member) : Phase :=
  if p = .pushing c then .settled c asked else .unsettled

/-- The members' owners lists and data of one partition, and the updates under way. -/
structure State where
  owners : Member → List Member
  /-- the number of keys of the partition at a member -/
  length : Member → ℕ
  /-- the requests at a member that have checked the ownership and not stored yet -/
  writing : Member → ℕ
  update : Member → Option Update
  /-- pushes that nobody waits for any more -/
  stale : List (Member × List Member)
  phase : Phase

namespace State

/-- No lists, no data and no updates. -/
def start : State := ⟨fun _ => [], fun _ => 0, fun _ => 0, fun _ => none, [], .unsettled⟩

/-- A handler has taken a table. -/
def setOwners (s : State) (m : Member) (table : List Member) : State :=
  { s with owners := Function.update s.owners m table }

/-- The update of a coordinator is `u` now. -/
def setUpdate (s : State) (c : Member) (u : Option Update) : State :=
  { s with update := Function.update s.update c u }

end State

/-- `checkOwnership` of a moved fragment, or the owner check of a write. -/
def accepts (owners : List Member) (this : Member) : Bool :=
  (owners.any fun owner => owner.compareByID this) ||
    match owners.getLast? with
    | some owner => owner.compareByName this
    | none => false

/-- What the coordinators and the members do. -/
inductive Action
  /-- `fillRoutingTable` of a coordinator, with the members it knows -/
  | startUpdate (c : Member) (members : List Member) (view : View) (newOwner : Member)
  /-- `updateRoutingCommandHandler` of `m`; its answer may be lost -/
  | push (c m : Member) (accepted answered : Bool)
  /-- the request fails for its sender and may be handled later -/
  | giveUp (c m : Member)
  | handleStale (j : ℕ)
  /-- the answers of all members are there; `order` is that of the map of reports -/
  | complete (c : Member) (order : List Member)
  | checkOwner (n : Member)
  | write (n : Member) (keys : ℕ)
  | shrink (n : Member) (keys : ℕ)

/-- One step of a coordinator or a member. -/
def step (s : State) : Action → Option State
  | .startUpdate c members view newOwner =>
    match s.update c with
    | some _ => none
    | none => some { s.setUpdate c (some
        ⟨distributePrimaryCopies view newOwner (s.owners c), members, members, [], false⟩) with
        phase := .pushing c }
  | .push c m accepted answered =>
    match s.update c with
    | some u =>
      if m ∉ u.waiting then none
      else if accepted = false then some (s.setUpdate c (some (u.fail m)))
      else
        some { (s.setOwners m u.table).setUpdate c (some (u.take m (s.length m) answered)) with
          phase := s.phase.afterPush c }
    | none => none
  | .giveUp c m =>
    match s.update c with
    | some u =>
      if m ∉ u.waiting then none
      else some { s.setUpdate c (some (u.fail m)) with stale := s.stale ++ [(m, u.table)] }
    | none => none
  | .handleStale j =>
    match s.stale[j]? with
    | some (m, table) =>
      some { s.setOwners m table with stale := s.stale.eraseIdx j, phase := .unsettled }
    | none => none
  | .complete c order =>
    match s.update c with
    | some u =>
      if u.waiting ≠ [] then none
      else if u.failed then
        some { s.setUpdate c none with phase := s.phase.afterFailure c }
      else if order.isPerm u.reports = false then none
      else some { (s.setOwners c (processLeftOverDataReports order (s.owners c))).setUpdate c
            none with
          phase := s.phase.afterSuccess c u.asked }
    | none => none
  | .checkOwner n =>
    if accepts (s.owners n) n then
      some { s with writing := Function.update s.writing n (s.writing n + 1) }
    else none
  | .write n keys =>
    if s.writing n = 0 then none
    else some { s with
      length := Function.update s.length n (s.length n + keys)
      writing := Function.update s.writing n (s.writing n - 1) }
  | .shrink n keys => some { s with length := Function.update s.length n (s.length n - keys) }

/-! ## What a step does -/

/-- The transitions of `step`, each with what it needs. -/
inductive Steps (s : State) : Action → State → Prop
  | started {c : Member} {members : List Member} {view : View} {newOwner : Member} :
      Steps s (.startUpdate c members view newOwner)
        { s.setUpdate c (some
          ⟨distributePrimaryCopies view newOwner (s.owners c), members, members, [], false⟩) with
          phase := .pushing c }
  | pushed {c m : Member} {answered : Bool} {u : Update} (running : s.update c = some u) :
      Steps s (.push c m true answered)
        { (s.setOwners m u.table).setUpdate c (some (u.take m (s.length m) answered)) with
          phase := s.phase.afterPush c }
  | refused {a : Action} {c m : Member} {u : Update} (running : s.update c = some u)
      {stale : List (Member × List Member)}
      (kept : ∀ p ∈ stale, p ∈ s.stale ∨ p = (m, u.table)) :
      Steps s a { s.setUpdate c (some (u.fail m)) with stale := stale }
  | handledStale {j : ℕ} {m : Member} {table : List Member} (at_j : s.stale[j]? = some (m, table)) :
      Steps s (.handleStale j)
        { s.setOwners m table with stale := s.stale.eraseIdx j, phase := .unsettled }
  | failed {c : Member} {order : List Member} :
      Steps s (.complete c order) { s.setUpdate c none with phase := s.phase.afterFailure c }
  | completed {c : Member} {order : List Member} {u : Update} (running : s.update c = some u)
      (answered : u.waiting = []) (ok : u.failed = false) (perm : order.Perm u.reports) :
      Steps s (.complete c order)
        { (s.setOwners c (processLeftOverDataReports order (s.owners c))).setUpdate c none with
          phase := s.phase.afterSuccess c u.asked }
  | checked {n : Member} (owner : accepts (s.owners n) n = true) :
      Steps s (.checkOwner n) { s with writing := Function.update s.writing n (s.writing n + 1) }
  | wrote {n : Member} {keys : ℕ} (checked : s.writing n ≠ 0) :
      Steps s (.write n keys) { s with
        length := Function.update s.length n (s.length n + keys)
        writing := Function.update s.writing n (s.writing n - 1) }
  | shrunk {n : Member} {keys : ℕ} :
      Steps s (.shrink n keys) { s with length := Function.update s.length n (s.length n - keys) }

theorem steps_of_step {s t : State} {a : Action} (h : step s a = some t) : Steps s a t := by
  cases a with
  | startUpdate c members view newOwner =>
    simp only [step] at h
    split at h
    · cases h
    · cases h
      exact .started
  | push c m accepted answered =>
    simp only [step] at h
    split at h
    · next u running =>
      split_ifs at h with _ refused
      · cases h
        exact .refused running fun _ => .inl
      · rw [Bool.not_eq_false] at refused
        subst refused
        cases h
        exact .pushed running
    · cases h
  | giveUp c m =>
    simp only [step] at h
    split at h
    · next u running =>
      split_ifs at h
      cases h
      refine .refused running fun p mem => ?_
      exact (List.mem_append.1 mem).imp_right List.mem_singleton.1
    · cases h
  | handleStale j =>
    simp only [step] at h
    split at h
    · next m table at_j =>
      cases h
      exact .handledStale at_j
    · cases h
  | complete c order =>
    simp only [step] at h
    split at h
    · next u running =>
      split_ifs at h with waiting failed perm
      · cases h
        exact .failed
      · cases h
        exact .completed running (not_not.1 waiting) (by simpa using failed)
          (List.isPerm_iff.1 (by simpa using perm))
    · cases h
  | checkOwner n =>
    simp only [step] at h
    split_ifs at h with owner
    cases h
    exact .checked owner
  | write n keys =>
    simp only [step] at h
    split_ifs at h with checked
    cases h
    exact .wrote checked
  | shrink n keys =>
    cases h
    exact .shrunk

/-! ## No member twice -/

theorem forall_update {α β : Type*} [DecidableEq α] {P : β → Prop} {f : α → β}
    (h : ∀ a, P (f a)) {a : α} {b : β} (hb : P b) : ∀ a', P (Function.update f a b a') := by
  intro a'
  by_cases same : a' = a
  · rwa [same, Function.update_self]
  · rw [Function.update_of_ne same]
    exact h a'

/-- Every list is free of duplicates: those of the members and those on their way. -/
structure Unique (s : State) : Prop where
  owners : ∀ m, Distinct (s.owners m)
  tables : ∀ c, ∀ u ∈ s.update c, Distinct u.table
  stale : ∀ p ∈ s.stale, Distinct p.2

namespace Unique

variable {s t : State}

theorem setOwners (h : Unique s) {m : Member} {table : List Member} (distinct : Distinct table) :
    Unique (s.setOwners m table) :=
  ⟨forall_update h.owners distinct, h.tables, h.stale⟩

theorem finish (h : Unique s) (c : Member) : Unique (s.setUpdate c none) :=
  ⟨h.owners, forall_update (P := fun o : Option Update => ∀ u ∈ o, Distinct u.table) h.tables
    (fun u running => by cases running), h.stale⟩

theorem setUpdate (h : Unique s) (c : Member) {u : Update} (distinct : Distinct u.table) :
    Unique (s.setUpdate c (some u)) := by
  refine ⟨h.owners, forall_update (P := fun o : Option Update => ∀ u ∈ o, Distinct u.table)
    h.tables fun u' running => ?_, h.stale⟩
  cases running
  exact distinct

theorem setPhase (h : Unique s) (p : Phase) : Unique { s with phase := p } :=
  ⟨h.owners, h.tables, h.stale⟩

theorem step (h : Unique s) {a : Action} (steps : Steps s a t) : Unique t := by
  cases steps with
  | @started c _ view newOwner =>
    exact (h.setUpdate c ((h.owners c).distributePrimaryCopies view newOwner)).setPhase _
  | @pushed c m answered u running =>
    have distinct := h.tables c u running
    exact ((h.setOwners distinct).setUpdate c (u := u.take m (s.length m) answered)
      distinct).setPhase _
  | @refused _ c m u running stale kept =>
    have distinct := h.tables c u running
    have refused := h.setUpdate c (u := u.fail m) distinct
    refine ⟨refused.owners, refused.tables, fun p mem => ?_⟩
    rcases kept p mem with old | new
    · exact h.stale p old
    · rwa [new]
  | @handledStale j m table at_j =>
    have handled := h.setOwners (m := m) (h.stale _ (List.mem_of_getElem? at_j))
    exact ⟨handled.owners, handled.tables, fun p mem => h.stale p (List.mem_of_mem_eraseIdx mem)⟩
  | failed => exact (h.finish _).setPhase _
  | @completed c order u =>
    have distinct := (processLeftOverDataReports_spec order (s.owners c)).distinct (h.owners c)
    exact ((h.setOwners distinct).finish c).setPhase _
  | checked => exact ⟨h.owners, h.tables, h.stale⟩
  | wrote => exact ⟨h.owners, h.tables, h.stale⟩
  | shrunk => exact ⟨h.owners, h.tables, h.stale⟩

end Unique

theorem unique_start : Unique State.start where
  owners _ := List.nodup_nil
  tables _ _ running := by cases running
  stale _ mem := by cases mem

theorem unique_of_run {allowed : State → Action → Prop} {as : List Action} {s : State}
    (r : Run step allowed State.start as s) : Unique s :=
  r.invariant Unique unique_start fun _ _ _ inv _ enabled => inv.step (steps_of_step enabled)

/-- No write is between its check and its store when a member takes a table. -/
def NoWriteUnderWay (s : State) : Action → Prop
  | .push _ m _ _ => s.writing m = 0
  | _ => True

/-- A coordinator asks itself among the members, and a member that it asks and that has the name of
the new owner is the new owner: it has not joined again since the ring was asked. -/
def NotRejoined : Action → Prop
  | .startUpdate c members _ newOwner =>
    c ∈ members ∧ ∀ m ∈ members, newOwner.compareByName m = true → newOwner.id = m.id
  | _ => True

/-- The conditions on a run. -/
def Quiet (s : State) (a : Action) : Prop := NoWriteUnderWay s a ∧ NotRejoined a

/-- The member has data of the partition, or is about to store some. -/
def State.Holds (s : State) (m : Member) : Prop := s.length m ≠ 0 ∨ s.writing m ≠ 0

/-- The last member of the list is called as one of `asked` only if it is that one. -/
def Ends (owners asked : List Member) : Prop :=
  ∃ owner, owners.getLast? = some owner ∧
    ∀ m ∈ asked, owner.compareByName m = true → owner.id = m.id

theorem Ends.id_mem {owners asked : List Member} (h : Ends owners asked) {m : Member}
    (mem : m ∈ asked) (accepted : accepts owners m = true) : m.id ∈ owners.map Member.id := by
  obtain ⟨owner, last, named⟩ := h
  rw [accepts, last, Bool.or_eq_true_iff] at accepted
  rcases accepted with listed | own
  · obtain ⟨o, mem_o, same⟩ := List.any_eq_true.1 listed
    exact List.mem_map.2 ⟨o, mem_o, beq_iff_eq.1 same⟩
  · exact List.mem_map.2 ⟨owner, List.mem_of_getLast? last, named m mem own⟩

/-- An update under way: those that have taken the table have no data that is not listed or
reported. -/
structure Pushed (s : State) (c : Member) (u : Update) : Prop where
  self : c ∈ u.asked
  ends : Ends u.table u.asked
  taken : u.failed = false → ∀ m ∈ u.asked, m ∉ u.waiting → s.owners m = u.table ∧
    (s.Holds m → m.id ∈ u.table.map Member.id ∨ m ∈ u.reports)

/-- After an update of `c` that succeeded: those that were asked have the owner that `c` has, and it
has all their owners and all of them that hold data. -/
structure Settled (s : State) (c : Member) (asked : List Member) : Prop where
  ends : Ends (s.owners c) asked
  agree : ∀ m ∈ asked, (s.owners m).getLast? = (s.owners c).getLast?
  listed : ∀ m ∈ asked, s.owners m ⊆ s.owners c
  holds : ∀ m ∈ asked, s.Holds m → m.id ∈ (s.owners c).map Member.id

/-- What the phase promises. -/
structure Covered (s : State) : Prop where
  pushing : ∀ c, s.phase = .pushing c → ∃ u, s.update c = some u ∧ Pushed s c u
  settled : ∀ c asked, s.phase = .settled c asked → Settled s c asked

namespace Covered

variable {s t : State}

/-- Data comes only to members that have found themselves to be owners. -/
theorem gain (h : Covered s) (owners : t.owners = s.owners) (update : t.update = s.update)
    (phase : t.phase = s.phase)
    (gains : ∀ m, t.Holds m → s.Holds m ∨ accepts (s.owners m) m = true) : Covered t := by
  refine ⟨fun c pushing => ?_, fun c asked settled => ?_⟩
  · obtain ⟨u, running, self, ends, taken⟩ := h.pushing c (phase ▸ pushing)
    refine ⟨u, by rw [update, running], self, ends, fun ok m mem done => ?_⟩
    obtain ⟨table, listed⟩ := taken ok m mem done
    refine ⟨by rw [owners, table], fun holds => ?_⟩
    rcases gains m holds with before | owner
    · exact listed before
    · exact .inl (ends.id_mem mem (table ▸ owner))
  · obtain ⟨ends, agree, listed, holds⟩ := h.settled c asked (phase ▸ settled)
    rw [← owners] at ends agree listed holds
    refine ⟨ends, agree, listed, fun m mem gained => ?_⟩
    rcases gains m gained with before | owner
    · exact holds m mem before
    · rw [← owners] at owner
      obtain ⟨o, last, named⟩ := ends
      have own : Ends (t.owners m) asked := ⟨o, (agree m mem).trans last, named⟩
      exact List.map_subset _ (listed m mem) (own.id_mem mem owner)

theorem started {c : Member} {members : List Member} {view : View}
    {newOwner : Member} (self : c ∈ members)
    (named : ∀ m ∈ members, newOwner.compareByName m = true → newOwner.id = m.id) :
    Covered { s.setUpdate c (some
      ⟨distributePrimaryCopies view newOwner (s.owners c), members, members, [], false⟩) with
      phase := .pushing c } := by
  refine ⟨fun c' pushing => ?_, fun c' asked settled => by cases settled⟩
  cases pushing
  refine ⟨_, Function.update_self .., self,
    ⟨newOwner, getLast?_distributePrimaryCopies view newOwner _, named⟩, fun _ m mem done => ?_⟩
  exact absurd mem done

/-- A member takes the table; it has no write under way. -/
theorem pushed (h : Covered s) {c m : Member} {answered : Bool} {u : Update}
    (running : s.update c = some u) (idle : s.writing m = 0) :
    Covered { (s.setOwners m u.table).setUpdate c (some (u.take m (s.length m) answered)) with
      phase := s.phase.afterPush c } := by
  refine ⟨fun c' pushing => ?_, fun c' asked settled => ?_⟩
  · change s.phase.afterPush c = .pushing c' at pushing
    unfold Phase.afterPush at pushing
    split_ifs at pushing with own
    obtain rfl : c = c' := Phase.pushing.inj (own.symm.trans pushing)
    obtain ⟨u', running', self, ends, taken⟩ := h.pushing c own
    obtain rfl : u = u' := Option.some.inj (running.symm.trans running')
    refine ⟨_, Function.update_self .., self, ends, fun ok m' mem done => ?_⟩
    by_cases same : m' = m
    · subst same
      refine ⟨Function.update_self .., fun holds => .inr ?_⟩
      have data : s.length m' ≠ 0 := holds.resolve_right fun busy => busy idle
      simp [Update.take, data]
    · have before := taken (Bool.or_eq_false_iff.1 ok).1 m' mem fun waits =>
        done (List.mem_filter.2 ⟨waits, decide_eq_true same⟩)
      refine ⟨(Function.update_of_ne same ..).trans before.1, fun holds => ?_⟩
      refine (before.2 holds).imp_right fun reported => ?_
      unfold Update.take
      split_ifs
      · exact List.mem_append_left _ reported
      · exact reported
  · change s.phase.afterPush c = .settled c' asked at settled
    unfold Phase.afterPush at settled
    split_ifs at settled with own
    rw [own] at settled
    cases settled

/-- A push has failed, so the update will. -/
theorem refused (h : Covered s) {c m : Member} {u : Update} (running : s.update c = some u)
    (stale : List (Member × List Member)) :
    Covered { s.setUpdate c (some (u.fail m)) with stale := stale } := by
  refine ⟨fun c' pushing => ?_, fun c' asked settled => ?_⟩
  · obtain ⟨u', running', before⟩ := h.pushing c' pushing
    by_cases own : c' = c
    · subst own
      obtain rfl : u = u' := Option.some.inj (running.symm.trans running')
      exact ⟨_, Function.update_self .., before.self, before.ends, fun ok => by cases ok⟩
    · exact ⟨u', (Function.update_of_ne own ..).trans running', before.self, before.ends,
        before.taken⟩
  · obtain ⟨ends, agree, listed, holds⟩ := h.settled c' asked settled
    exact ⟨ends, agree, listed, holds⟩

theorem failed (h : Covered s) (c : Member) :
    Covered { s.setUpdate c none with phase := s.phase.afterFailure c } := by
  refine ⟨fun c' pushing => ?_, fun c' asked settled => ?_⟩
  · change s.phase.afterFailure c = .pushing c' at pushing
    unfold Phase.afterFailure at pushing
    split_ifs at pushing with own
    obtain ⟨u, running, before⟩ := h.pushing c' pushing
    have other : c' ≠ c := by
      rintro rfl
      exact own pushing
    exact ⟨u, (Function.update_of_ne other ..).trans running, before.self, before.ends,
      before.taken⟩
  · change s.phase.afterFailure c = .settled c' asked at settled
    unfold Phase.afterFailure at settled
    split_ifs at settled
    obtain ⟨ends, agree, listed, holds⟩ := h.settled c' asked settled
    exact ⟨ends, agree, listed, holds⟩

/-- All have answered: the members that reported data are taken in. -/
theorem completed (h : Covered s) {c : Member} {order : List Member} {u : Update}
    (running : s.update c = some u) (answered : u.waiting = []) (ok : u.failed = false)
    (perm : order.Perm u.reports) :
    Covered { (s.setOwners c (processLeftOverDataReports order (s.owners c))).setUpdate c none with
      phase := s.phase.afterSuccess c u.asked } := by
  refine ⟨fun c' pushing => ?_, fun c' asked settled => ?_⟩
  · change s.phase.afterSuccess c u.asked = .pushing c' at pushing
    unfold Phase.afterSuccess at pushing
    split_ifs at pushing
  change s.phase.afterSuccess c u.asked = .settled c' asked at settled
  unfold Phase.afterSuccess at settled
  split_ifs at settled with own
  cases settled
  obtain ⟨u', running', self, ends, taken⟩ := h.pushing c own
  obtain rfl : u = u' := Option.some.inj (running.symm.trans running')
  replace taken : ∀ m ∈ u.asked, s.owners m = u.table ∧
      (s.Holds m → m.id ∈ u.table.map Member.id ∨ m ∈ u.reports) := fun m mem =>
    taken ok m mem (by rw [answered]; exact List.not_mem_nil)
  have table := (taken c self).1
  obtain ⟨keeps, adds, -, last⟩ := processLeftOverDataReports_spec order (s.owners c)
  rw [table] at keeps adds last
  obtain ⟨owner, ends_table, named⟩ := ends
  have now : ∀ m ∈ u.asked,
      (Function.update s.owners c (processLeftOverDataReports order u.table) m).getLast? =
        some owner ∧
      Function.update s.owners c (processLeftOverDataReports order u.table) m ⊆
        processLeftOverDataReports order u.table := by
    intro m mem
    by_cases same : m = c
    · rw [same, Function.update_self]
      exact ⟨last owner ends_table, List.Subset.refl _⟩
    · rw [Function.update_of_ne same, (taken m mem).1]
      exact ⟨ends_table, keeps⟩
  have self_now : Function.update s.owners c (processLeftOverDataReports order u.table) c =
      processLeftOverDataReports order u.table := Function.update_self ..
  have settled : Settled ((s.setOwners c (processLeftOverDataReports order u.table)).setUpdate c
      none) c u.asked := by
    refine ⟨⟨owner, (now c self).1, named⟩, fun m mem => (now m mem).1.trans (now c self).1.symm,
      fun m mem => ?_, fun m mem holds => ?_⟩
    · change Function.update s.owners c _ m ⊆ Function.update s.owners c _ c
      rw [self_now]
      exact (now m mem).2
    · change m.id ∈ (Function.update s.owners c _ c).map Member.id
      rw [self_now]
      rcases (taken m mem).2 holds with listed | reported
      · exact List.map_subset _ keeps listed
      · exact adds m (perm.mem_iff.2 reported)
  rw [table]
  exact ⟨settled.ends, settled.agree, settled.listed, settled.holds⟩

theorem step (h : Covered s) {a : Action} (quiet : Quiet s a) (steps : Steps s a t) :
    Covered t := by
  cases steps with
  | started => exact started quiet.2.1 quiet.2.2
  | pushed running => exact h.pushed running quiet.1
  | refused running => exact h.refused running _
  | handledStale =>
    refine ⟨fun _ pushing => ?_, fun _ _ settled => ?_⟩
    · cases pushing
    · cases settled
  | failed => exact h.failed _
  | completed running answered ok perm => exact h.completed running answered ok perm
  | @checked n owner =>
    refine h.gain rfl rfl rfl fun m holds => ?_
    by_cases same : m = n
    · exact .inr (same ▸ owner)
    · exact .inl (by simpa only [State.Holds, Function.update_of_ne same] using holds)
  | @wrote n keys checked =>
    refine h.gain rfl rfl rfl fun m holds => .inl ?_
    by_cases same : m = n
    · exact .inr (same ▸ checked)
    · simpa only [State.Holds, Function.update_of_ne same] using holds
  | @shrunk n keys =>
    refine h.gain rfl rfl rfl fun m holds => .inl ?_
    by_cases same : m = n
    · subst same
      simp only [State.Holds, Function.update_self] at holds ⊢
      omega
    · simpa only [State.Holds, Function.update_of_ne same] using holds

end Covered

theorem covered_start : Covered State.start where
  pushing _ pushing := by cases pushing
  settled _ _ settled := by cases settled

/-- After an update that succeeded, and whatever the members store and drop until the next table
is pushed: the members that were asked agree on the owner; each of them that has data is in the
list of the coordinator, and in the next table unless it is found to be gone or empty. -/
theorem settled_table_has_all_data {as : List Action} {s : State}
    (r : Run step Quiet State.start as s) {c : Member} {asked : List Member}
    (settled : s.phase = .settled c asked) :
    (∃ owner, ∀ m ∈ asked, (s.owners m).getLast? = some owner) ∧
      ∀ m ∈ asked, s.length m ≠ 0 → m.id ∈ (s.owners c).map Member.id ∧
        ∀ view newOwner, (∀ o ∈ s.owners c, o.id = m.id → view.alive o = true ∧
            view.occupied o = true) →
          m.id ∈ (distributePrimaryCopies view newOwner (s.owners c)).map Member.id := by
  have unique := unique_of_run r
  have covered : Covered s := r.invariant Covered covered_start fun t a u inv quiet enabled =>
    inv.step quiet (steps_of_step enabled)
  obtain ⟨⟨owner, last, -⟩, agree, -, holds⟩ := covered.settled c asked settled
  refine ⟨⟨owner, fun m mem => (agree m mem).trans last⟩, fun m mem data => ?_⟩
  have listed := holds m mem (.inl data)
  refine ⟨listed, fun view newOwner found => ?_⟩
  obtain ⟨o, mem_o, same⟩ := List.mem_map.1 listed
  rw [distributePrimaryCopies_eq (unique.owners c), List.map_append, List.mem_append]
  by_cases new : o.id = newOwner.id
  · exact .inr (List.mem_singleton.2 (same.symm.trans new))
  · obtain ⟨alive, occupied⟩ := found o mem_o same
    exact .inl (List.mem_map.2 ⟨o, List.mem_filter.2 ⟨mem_o, by simp [alive, occupied, new]⟩, same⟩)

/-- A member for the runs below. -/
def first : Member := ⟨"a", 1, 11, 1⟩

/-- Another one. -/
def second : Member := ⟨"b", 2, 12, 2⟩

/-- Both members are there; the first one is thought to be empty. -/
def lateView : View :=
  ⟨fun name => if name = "a" then some first else some second, fun _ => some 0⟩

theorem known_members (newOwner : Member) (either : newOwner ∈ [first, second]) :
    NotRejoined (.startUpdate first [first, second] lateView newOwner) := by
  refine ⟨List.mem_cons_self, ?_⟩
  revert either newOwner
  decide

/-- The first member gets a key after it was asked for its length, and the partition goes to the
second: the report puts the first one back into the list. -/
theorem reported_run : ∃ s, Run step Quiet State.start
    [.startUpdate first [first, second] lateView first, .push first first true true,
      .push first second true true, .complete first [], .checkOwner first, .write first 3,
      .startUpdate first [first, second] lateView second, .push first second true true,
      .push first first true true, .complete first [first]] s ∧
    s.phase = .settled first [first, second] ∧ s.length first = 3 := by
  refine ⟨_, .cons _ ⟨trivial, known_members first ?_⟩ rfl <| .cons _ ⟨rfl, trivial⟩ rfl <|
    .cons _ ⟨rfl, trivial⟩ rfl <| .cons _ ⟨trivial, trivial⟩ rfl <|
    .cons _ ⟨trivial, trivial⟩ rfl <| .cons _ ⟨trivial, trivial⟩ rfl <|
    .cons _ ⟨trivial, known_members second ?_⟩ rfl <| .cons _ ⟨rfl, trivial⟩ rfl <|
    .cons _ ⟨rfl, trivial⟩ rfl <| .cons _ ⟨trivial, trivial⟩ rfl .nil, rfl, rfl⟩ <;> decide

theorem settled_table_has_all_data_reported :
    ∃ s : State, s.length first = 3 ∧ first.id ∈ (s.owners first).map Member.id := by
  obtain ⟨s, r, settled, data⟩ := reported_run
  refine ⟨s, data, ((settled_table_has_all_data r settled).2 first List.mem_cons_self ?_).1⟩
  rw [data]
  decide

/-- A write that has checked the ownership before its member takes the table and stores after it
is in no list, until the next update. -/
theorem missed_write : ∃ s, Run step (fun _ => NotRejoined) State.start
    [.startUpdate first [first, second] lateView first, .push first first true true,
      .push first second true true, .complete first [], .checkOwner first,
      .startUpdate first [first, second] lateView second, .push first second true true,
      .push first first true true, .complete first [], .write first 3] s ∧
    s.phase = .settled first [first, second] ∧ s.length first = 3 ∧
      s.owners first = [second] := by
  refine ⟨_, .cons _ (known_members first ?_) rfl <| .cons _ trivial rfl <| .cons _ trivial rfl <|
    .cons _ trivial rfl <| .cons _ trivial rfl <| .cons _ (known_members second ?_) rfl <|
    .cons _ trivial rfl <| .cons _ trivial rfl <| .cons _ trivial rfl <|
    .cons _ trivial rfl .nil, rfl, rfl, ?_⟩
  · decide
  · decide
  change distributePrimaryCopies lateView second [first] = [second]
  have distinct : Distinct [first] := List.nodup_singleton _
  rw [distributePrimaryCopies_eq distinct]
  decide

/-- The second member after it has joined again. -/
def rejoined : Member := ⟨"b", 2, 22, 3⟩

/-- The ring gives the second member, which joins again before the members are asked.  It takes
itself for the owner by its name, and what it stores is on a member in no list. -/
theorem rejoined_owner_missed : ∃ s, Run step NoWriteUnderWay State.start
    [.startUpdate first [first, rejoined] lateView second, .push first first true true,
      .push first rejoined true true, .complete first [], .checkOwner rejoined,
      .write rejoined 3] s ∧
    s.phase = .settled first [first, rejoined] ∧ s.length rejoined = 3 ∧
      s.owners first = [second] :=
  ⟨_, .cons _ trivial rfl <| .cons _ rfl rfl <| .cons _ rfl rfl <| .cons _ trivial rfl <|
    .cons _ trivial rfl <| .cons _ trivial rfl .nil, rfl, rfl, rfl⟩

end OlricStack.Cluster.Routing
