import Mathlib.Data.List.Nodup
import OlricStack.Lib.Run
import OlricStack.Operator.Workloads

/-!
# Reconciling

`OlricStackReconciler.Reconcile` and the `Reconcile` of the watchdog's controller, as threads that
read and write objects of one API server beside each other, for any number of stacks, with old
leaders among the watchdogs.  `Get` and the write behind it are two steps, so a write may come too
late for its version; a request may fail, and its answer may get lost.  The client of the operator
reads from a cache, and here every `Get` is answered by the server: an old answer for a stack is a
`Reconcile` that began earlier, and after an old answer for an object the server refuses the write.

Once a stack is not edited any more and nobody is left who read it before, whatever a `Reconcile`
that ends without an error asked for stands in the cluster and stays there (`reconcile_converges`).
-/

namespace OlricStack.Operator

open ApiServer Transition

/-! ## `applyOwned` -/

/-- The fields that `applyOwned` takes over from the object that stands there. -/
def carry (c : Controller) (current desired : Object) : Object :=
  match desired, current with
  | .service d, .service s =>
    .service { d with
      clusterIP := s.clusterIP
      clusterIPs := s.clusterIPs
      ipFamilies := s.ipFamilies
      ipFamilyPolicy := s.ipFamilyPolicy }
  | .deployment d, .deployment s =>
    match c with
    | .watchdog => .deployment { d with selector := s.selector }
    | .operator => .deployment d
  | d, _ => d

/-- An object without the fields that are taken over or given by the server. -/
def Object.plain (c : Controller) : Object → Object
  | .service s =>
    .service { s with clusterIP := "", clusterIPs := [], ipFamilies := [], ipFamilyPolicy := none }
  | .deployment d =>
    match c with
    | .watchdog => .deployment { d with selector := [] }
    | .operator => .deployment d
  | o => o

/-- The server gives addresses to a service, and stores the rest as it was sent. -/
def Faithful (accept : Option Object → Object → Option Object) : Prop :=
  ∀ old o stored, accept old o = some stored → stored.plain .operator = o.plain .operator

theorem plain_carry (c : Controller) (current desired : Object) :
    (carry c current desired).plain c = desired.plain c := by
  cases desired <;> cases current <;> cases c <;> rfl

theorem plain_of_operator {o o' : Object} (same : o.plain .operator = o'.plain .operator)
    (c : Controller) : o.plain c = o'.plain c := by
  cases o <;> cases o' <;> cases c <;> simp_all [Object.plain]

/-! ## Threads -/

/-- Namespace and name of a stack. -/
abbrev StackKey := String × String

/-- The key under which a stack is declared. -/
def StackRef.key (r : StackRef) : StackKey := (r.nameSpace, r.name)

/-- An `OlricStack` with its status. -/
structure StackObject where
  stack : Stack
  status : Status

/-- Where a `Reconcile` is. -/
inductive Pc
  /-- before the `Get` for the next object -/
  | applying (todo : List Object)
  /-- `Get` has answered -/
  | read (o : Object) (current : Option (Stored Object)) (rest : List Object)
  /-- before `updateStatus` or `observePods` -/
  | closing
  | ended (ok : Bool)
deriving DecidableEq

/-- A `Reconcile` of a controller. -/
structure Thread where
  controller : Controller
  /-- as it was read, with its version -/
  stack : Stack
  version : ℕ
  pc : Pc

/-- The `Reconcile` has not returned. -/
def Pc.running : Pc → Bool
  | .ended _ => false
  | _ => true

/-- The thread goes on. -/
def Thread.Running (t : Thread) : Prop := t.pc.running = true

/-- The stacks, the objects in the cluster, and all who reconcile. -/
structure State where
  declared : Server StackKey StackObject
  server : Server ObjectKey Object
  threads : List Thread

/-- The thread `t`, which is the `i`-th, is at `pc` now. -/
def State.moveTo (s : State) (i : ℕ) (t : Thread) (pc : Pc) : State :=
  { s with threads := s.threads.set i { t with pc := pc } }

/-- What the status takes from a pod. -/
structure Pod where
  podIP : String
  ready : Bool

/-- `updateStatus` -/
def podStatus (pods : List Pod) : Status where
  readyReplicas := pods.countP fun p => p.ready
  podIPs := ((pods.map Pod.podIP).filter (· ≠ "")).mergeSort

/-- What the controllers, the users and others do. -/
inductive Action
  /-- a stack is created or its spec is changed -/
  | edit (key : StackKey) (spec : Spec)
  | remove (key : StackKey)
  /-- a `Reconcile` that reads the stack from the server, not from a cache -/
  | begin (c : Controller) (key : StackKey)
  /-- the `Get` for the next object, which the server answers -/
  | get (i : ℕ)
  /-- a write, whose answer may be lost -/
  | write (i : ℕ) (lost : Bool)
  | close (i : ℕ) (pods : List Pod)
  /-- a request without effect -/
  | fail (i : ℕ)
  /-- somebody else writes or deletes an object -/
  | put (o : Object)
  | erase (key : ObjectKey)

/-- The second half of `applyOwned`: what is written after `Get` has answered. -/
def applyOwned (accept : Option Object → Object → Option Object) (s : Server ObjectKey Object)
    (c : Controller) (o : Object) : Option (Stored Object) → Option (Server ObjectKey Object)
  | none => s.create accept o.key o
  | some current => s.update accept o.key current.version (carry c current.object o)

/-- One request of a thread, or one action of somebody else. -/
def step (accept : Option Object → Object → Option Object) (s : State) : Action → Option State
  | .edit key spec =>
    let stack : StackObject :=
      match s.declared.objects key with
      | some old => ⟨⟨old.object.stack.toStackRef, spec⟩, old.object.status⟩
      | none => ⟨⟨⟨key.1, key.2, s.declared.next⟩, spec⟩, ⟨0, []⟩⟩
    some { s with declared := s.declared.put key stack }
  | .remove key =>
    some { s with declared := s.declared.erase key }
  | .begin c key =>
    match s.declared.objects key with
    | some found =>
      some { s with
        threads := s.threads ++
          [⟨c, found.object.stack, found.version, .applying (c.desired found.object.stack)⟩] }
    | none => none
  | .get i =>
    match s.threads[i]? with
    | some t =>
      match t.pc with
      | .applying [] => some (s.moveTo i t .closing)
      | .applying (o :: rest) => some (s.moveTo i t (.read o (s.server.objects o.key) rest))
      | _ => none
    | none => none
  | .write i lost =>
    match s.threads[i]? with
    | some t =>
      match t.pc with
      | .read o current rest =>
        match applyOwned accept s.server t.controller o current with
        | some server =>
          some { s.moveTo i t (if lost then .ended false else .applying rest) with
            server := server }
        | none => some (s.moveTo i t (.ended false))
      | _ => none
    | none => none
  | .close i pods =>
    match s.threads[i]? with
    | some t =>
      match t.pc with
      | .closing =>
        match t.controller with
        | .watchdog => some (s.moveTo i t (.ended true))
        | .operator =>
          match s.declared.update (fun _ o => some o) t.stack.key t.version
              ⟨t.stack, podStatus pods⟩ with
          | some declared => some { s.moveTo i t (.ended true) with declared := declared }
          | none => some (s.moveTo i t (.ended false))
      | _ => none
    | none => none
  | .fail i =>
    match s.threads[i]? with
    | some t =>
      match t.pc with
      | .ended _ => none
      | _ => some (s.moveTo i t (.ended false))
    | none => none
  | .put o => some { s with server := s.server.put o.key o }
  | .erase key => some { s with server := s.server.erase key }

/-- The stacks stand under their names. -/
def State.Named (s : State) : Prop :=
  ∀ key found, s.declared.objects key = some found → found.object.stack.key = key

/-! ## What a step does -/

/-- The transitions of `step`, each with what it needs. -/
inductive Steps (accept : Option Object → Object → Option Object) (s : State) :
    Action → State → Prop
  | edit {key : StackKey} {spec : Spec} {o : StackObject} (named : s.Named → o.stack.key = key) :
      Steps accept s (.edit key spec) { s with declared := s.declared.put key o }
  | remove {key : StackKey} :
      Steps accept s (.remove key) { s with declared := s.declared.erase key }
  | begin {c : Controller} {key : StackKey} {found : Stored StackObject}
      (there : s.declared.objects key = some found) :
      Steps accept s (.begin c key) { s with
        threads := s.threads ++
          [⟨c, found.object.stack, found.version, .applying (c.desired found.object.stack)⟩] }
  | last {i : ℕ} {t : Thread} (at_i : s.threads[i]? = some t) (pc : t.pc = .applying []) :
      Steps accept s (.get i) (s.moveTo i t .closing)
  | get {i : ℕ} {t : Thread} {o : Object} {rest : List Object} (at_i : s.threads[i]? = some t)
      (pc : t.pc = .applying (o :: rest)) :
      Steps accept s (.get i) (s.moveTo i t (.read o (s.server.objects o.key) rest))
  | write {i : ℕ} {t : Thread} {o : Object} {current : Option (Stored Object)} {rest : List Object}
      {lost : Bool} {server : Server ObjectKey Object} (at_i : s.threads[i]? = some t)
      (pc : t.pc = .read o current rest)
      (applied : applyOwned accept s.server t.controller o current = some server) :
      Steps accept s (.write i lost)
        { s.moveTo i t (if lost then .ended false else .applying rest) with server := server }
  | refused {i : ℕ} {t : Thread} {lost : Bool} (at_i : s.threads[i]? = some t) :
      Steps accept s (.write i lost) (s.moveTo i t (.ended false))
  | observed {i : ℕ} {t : Thread} {pods : List Pod} (at_i : s.threads[i]? = some t)
      (pc : t.pc = .closing) (watchdog : t.controller = .watchdog) :
      Steps accept s (.close i pods) (s.moveTo i t (.ended true))
  | status {i : ℕ} {t : Thread} {pods : List Pod} {declared : Server StackKey StackObject}
      (at_i : s.threads[i]? = some t) (pc : t.pc = .closing) (operator : t.controller = .operator)
      (updated : s.declared.update (fun _ o => some o) t.stack.key t.version
        ⟨t.stack, podStatus pods⟩ = some declared) :
      Steps accept s (.close i pods) { s.moveTo i t (.ended true) with declared := declared }
  | stale {i : ℕ} {t : Thread} {pods : List Pod} (at_i : s.threads[i]? = some t) :
      Steps accept s (.close i pods) (s.moveTo i t (.ended false))
  | fail {i : ℕ} {t : Thread} (at_i : s.threads[i]? = some t) :
      Steps accept s (.fail i) (s.moveTo i t (.ended false))
  | put {o : Object} : Steps accept s (.put o) { s with server := s.server.put o.key o }
  | erase {key : ObjectKey} : Steps accept s (.erase key) { s with server := s.server.erase key }

theorem steps_of_step {accept : Option Object → Object → Option Object} {s s' : State} {a : Action}
    (h : step accept s a = some s') : Steps accept s a s' := by
  cases a with
  | edit key spec =>
    cases h
    refine .edit fun named => ?_
    split
    · rename_i old there
      exact named key old there
    · rfl
  | remove key =>
    cases h
    exact .remove
  | begin c key =>
    simp only [step] at h
    split at h <;> cases h
    exact .begin ‹_›
  | get i =>
    simp only [step] at h
    split at h <;> try cases h
    split at h <;> cases h
    · exact .last ‹_› ‹_›
    · exact .get ‹_› ‹_›
  | write i lost =>
    simp only [step] at h
    split at h <;> try cases h
    split at h <;> try cases h
    split at h <;> cases h
    · exact .write ‹_› ‹_› ‹_›
    · exact .refused ‹_›
  | close i pods =>
    simp only [step] at h
    split at h <;> try cases h
    split at h <;> try cases h
    split at h
    · cases h
      exact .observed ‹_› ‹_› ‹_›
    · split at h <;> cases h
      · exact .status ‹_› ‹_› ‹_› ‹_›
      · exact .stale ‹_›
  | fail i =>
    simp only [step] at h
    split at h <;> try cases h
    split at h <;> cases h
    exact .fail ‹_›
  | put o =>
    cases h
    exact .put
  | erase key =>
    cases h
    exact .erase

/-! ## What stands in the cluster -/

/-- An object stands in the cluster as it is wanted. -/
def Stands (s : Server ObjectKey Object) (c : Controller) (o : Object) : Prop :=
  ∃ stored, s.objects o.key = some stored ∧ stored.object.plain c = o.plain c

/-- The objects of a controller have different kinds. -/
theorem desired_key_inj {c : Controller} {stack : Stack} {o o' : Object} (mem : o ∈ c.desired stack)
    (mem' : o' ∈ c.desired stack) (same : o.key = o'.key) : o = o' := by
  have kinds := congrArg ObjectKey.kind same
  cases c with
  | operator =>
    simp only [Controller.desired, Controller.resources, List.map_cons, List.map_nil,
      List.mem_cons, List.not_mem_nil, or_false] at mem mem'
    rcases mem with rfl | rfl | rfl | rfl <;> rcases mem' with rfl | rfl | rfl | rfl <;>
      first | rfl | cases kinds
  | watchdog =>
    simp only [Controller.desired, Controller.resources, List.map_cons, List.map_nil,
      List.mem_cons, List.not_mem_nil, or_false] at mem mem'
    rcases mem with rfl | rfl <;> rcases mem' with rfl | rfl <;> first | rfl | cases kinds

/-- Two objects under one key are wanted by the same controller for the same stack. -/
theorem owner_of_key {c c' : Controller} {stack stack' : Stack} {o o' : Object}
    (mem : o ∈ c.desired stack) (mem' : o' ∈ c'.desired stack') (same : o.key = o'.key) :
    stack.key = stack'.key ∧ c = c' := by
  obtain ⟨ns, name⟩ := key_of_mem_desired mem
  obtain ⟨ns', name'⟩ := key_of_mem_desired mem'
  rw [same] at ns name
  obtain ⟨names, controllers⟩ := suffix_inj (name.symm.trans name')
  exact ⟨Prod.ext (ns.symm.trans ns') names, controllers⟩

/-- What a write leaves under its key. -/
theorem applyOwned_eq_some {accept : Option Object → Object → Option Object}
    (faithful : Faithful accept) {s s' : Server ObjectKey Object} {c : Controller} {o : Object}
    {current : Option (Stored Object)} (h : applyOwned accept s c o current = some s') :
    ∃ stored, s' = s.put o.key stored ∧ stored.plain c = o.plain c := by
  cases current with
  | none =>
    obtain ⟨-, stored, admitted, rfl⟩ := Server.create_eq_some h
    exact ⟨stored, rfl, plain_of_operator (faithful _ _ _ admitted) c⟩
  | some current =>
    obtain ⟨old, -, -, stored, admitted, rfl⟩ := Server.update_eq_some h
    refine ⟨stored, rfl, ?_⟩
    rw [plain_of_operator (faithful _ _ _ admitted) c, plain_carry]

/-! ## A stack that is not edited -/

/-- The key is not one of the stack's objects. -/
def Elsewhere (key : StackKey) (k : ObjectKey) : Prop :=
  k.nameSpace = key.1 → k.name ≠ key.2 ++ Controller.operator.suffix ∧
    k.name ≠ key.2 ++ Controller.watchdog.suffix

instance (key : StackKey) (k : ObjectKey) : Decidable (Elsewhere key k) :=
  inferInstanceAs (Decidable (_ → _))

/-- Nobody edits the stack or touches its objects from outside. -/
def Undisturbed (key : StackKey) (_ : State) : Action → Prop
  | .edit k _ | .remove k => k ≠ key
  | .put o => Elsewhere key o.key
  | .erase k => Elsewhere key k
  | _ => True

instance (key : StackKey) (s : State) : ∀ a, Decidable (Undisturbed key s a)
  | .edit k _ | .remove k => inferInstanceAs (Decidable (k ≠ key))
  | .put o => inferInstanceAs (Decidable (Elsewhere key o.key))
  | .erase k => inferInstanceAs (Decidable (Elsewhere key k))
  | .begin .. | .get _ | .write .. | .close .. | .fail _ => .isTrue trivial

/-- What a thread has still to write. -/
def Pc.todo : Pc → List Object
  | .applying todo => todo
  | .read o _ rest => o :: rest
  | .closing | .ended _ => []

/-- A thread writes only what its controller wants for the stack it has read. -/
def Thread.Listed (t : Thread) : Prop := ∀ o ∈ t.pc.todo, o ∈ t.controller.desired t.stack

/-- What a thread has written stands there. -/
def Thread.Through (server : Server ObjectKey Object) (t : Thread) : Prop :=
  t.pc ≠ .ended false → ∃ written, t.controller.desired t.stack = written ++ t.pc.todo ∧
    ∀ o ∈ written, Stands server t.controller o

theorem running_of_pc {t : Thread} {pc : Pc} (eq : t.pc = pc) (running : pc.running = true) :
    t.Running := by
  rw [Thread.Running, eq, running]

theorem Thread.Running.not_ended {t : Thread} (h : t.Running) (ok : Bool) : t.pc ≠ .ended ok := by
  intro ended
  rw [Thread.Running, ended] at h
  cases h

/-- What holds in every run. -/
structure Orderly (s : State) : Prop where
  named : s.Named
  listed : ∀ t ∈ s.threads, t.Listed

namespace Orderly

variable {s : State}

theorem setServer (h : Orderly s) (server : Server ObjectKey Object) :
    Orderly { s with server := server } := ⟨h.named, h.listed⟩

theorem setStacks (h : Orderly s) {key : StackKey} {o : StackObject} (named : o.stack.key = key) :
    Orderly { s with declared := s.declared.put key o } := by
  refine ⟨fun key' found there => ?_, h.listed⟩
  by_cases same : key' = key
  · subst same
    rw [Server.put_objects_self] at there
    cases there
    exact named
  · rw [Server.put_objects_of_ne same] at there
    exact h.named key' found there

theorem remove (h : Orderly s) (key : StackKey) :
    Orderly { s with declared := s.declared.erase key } :=
  ⟨fun key' found there => h.named key' found (Server.erase_objects_eq_some there), h.listed⟩

theorem move (h : Orderly s) {i : ℕ} {t : Thread} {pc : Pc} (at_i : s.threads[i]? = some t)
    (todo : ∀ o ∈ pc.todo, o ∈ t.pc.todo) : Orderly (s.moveTo i t pc) :=
  ⟨h.named, forall_mem_set h.listed fun o mem =>
    h.listed t (List.mem_of_getElem? at_i) o (todo o mem)⟩

/-- A thread fails. -/
theorem stop (h : Orderly s) {i : ℕ} {t : Thread} (at_i : s.threads[i]? = some t) :
    Orderly (s.moveTo i t (.ended false)) :=
  h.move at_i fun _ mem => absurd mem List.not_mem_nil

theorem begin (h : Orderly s) (c : Controller) (stack : Stack) (version : ℕ) :
    Orderly { s with threads := s.threads ++ [⟨c, stack, version, .applying (c.desired stack)⟩] } :=
  ⟨h.named, forall_mem_snoc h.listed fun _ mem => mem⟩

theorem step {accept : Option Object → Object → Option Object} {s' : State} {a : Action}
    (h : Orderly s) (steps : Steps accept s a s') : Orderly s' := by
  cases steps with
  | edit named => exact h.setStacks (named h.named)
  | remove => exact h.remove _
  | begin => exact h.begin _ _ _
  | last at_i pc => exact h.move at_i (by rw [pc]; exact fun _ mem => mem)
  | get at_i pc => exact h.move at_i (by rw [pc]; exact fun _ mem => mem)
  | @write _ _ o _ _ lost _ at_i pc =>
    refine (h.move at_i ?_).setServer _
    rw [pc]
    cases lost with
    | true => exact fun _ mem => absurd mem List.not_mem_nil
    | false => exact fun _ mem => List.mem_cons_of_mem o mem
  | refused at_i => exact h.stop at_i
  | observed at_i => exact h.move at_i fun _ mem => absurd mem List.not_mem_nil
  | status at_i _ _ updated =>
    obtain ⟨-, -, -, stored, same, rfl⟩ := Server.update_eq_some updated
    cases same
    have moved : Orderly (s.moveTo _ _ (.ended true)) :=
      h.move at_i fun _ mem => absurd mem List.not_mem_nil
    exact moved.setStacks rfl
  | stale at_i => exact h.stop at_i
  | fail at_i => exact h.stop at_i
  | put => exact h.setServer _
  | erase => exact h.setServer _

end Orderly

/-- The stack under `key` is `stack`, for all who go on, and the threads from the `n`-th on have
written it. -/
structure Settled (key : StackKey) (stack : Stack) (n : ℕ) (s : State) : Prop extends
    Orderly s where
  spec : ∃ found, s.declared.objects key = some found ∧ found.object.stack = stack
  current : ∀ t ∈ s.threads, t.Running → t.stack.key = key → t.stack = stack
  through : ∀ i t, n ≤ i → s.threads[i]? = some t → t.stack.key = key →
    t.stack = stack ∧ t.Through s.server

/-- A write under a key leaves the other objects, and the object that is wanted there. -/
theorem Stands.write {server : Server ObjectKey Object} {c c' : Controller} {stack stack' : Stack}
    {o o' stored : Object} (h : Stands server c o) (mem : o ∈ c.desired stack)
    (mem' : o' ∈ c'.desired stack') (same : stack'.key = stack.key → stack' = stack)
    (wanted : stored.plain c' = o'.plain c') : Stands (server.put o'.key stored) c o := by
  by_cases keys : o.key = o'.key
  · obtain ⟨refs, rfl⟩ := owner_of_key mem mem' keys
    cases same refs.symm
    cases desired_key_inj mem mem' keys
    exact ⟨⟨server.next, stored⟩, Server.put_objects_self, wanted⟩
  · obtain ⟨found, there, plain⟩ := h
    exact ⟨found, (Server.put_objects_of_ne keys).trans there, plain⟩

theorem Thread.Through.mono {server server' : Server ObjectKey Object} {t : Thread}
    (h : t.Through server)
    (keep : ∀ o ∈ t.controller.desired t.stack, Stands server t.controller o →
      Stands server' t.controller o) : t.Through server' := by
  intro alive
  obtain ⟨written, parts, stands⟩ := h alive
  refine ⟨written, parts, fun o mem => keep o ?_ (stands o mem)⟩
  rw [parts]
  exact List.mem_append_left _ mem

namespace Settled

variable {key : StackKey} {stack : Stack} {n : ℕ} {s : State}
  {accept : Option Object → Object → Option Object}

/-- Only the server has changed, and not what is wanted for the stack. -/
theorem setServer (h : Settled key stack n s) {server : Server ObjectKey Object}
    (keep : ∀ (c : Controller), ∀ o ∈ c.desired stack, Stands s.server c o → Stands server c o) :
    Settled key stack n { s with server := server } :=
  { h with
    toOrderly := h.toOrderly.setServer server
    through := fun i t from_n at_i is => by
      obtain ⟨rfl, through⟩ := h.through i t from_n at_i is
      exact ⟨rfl, through.mono (keep t.controller)⟩ }

/-- A thread moves on, with as much to do as before or for the last time. -/
theorem move (h : Settled key stack n s) {i : ℕ} {t : Thread} {pc : Pc}
    (at_i : s.threads[i]? = some t)
    (moved : pc = .ended false ∨ t.Running ∧ pc.todo = t.pc.todo) :
    Settled key stack n (s.moveTo i t pc) where
  toOrderly := by
    rcases moved with rfl | ⟨-, todo⟩
    · exact h.toOrderly.stop at_i
    · exact h.toOrderly.move at_i fun o mem => todo ▸ mem
  spec := h.spec
  current := by
    refine forall_mem_set h.current fun goes => ?_
    rcases moved with rfl | ⟨running, -⟩
    · cases goes
    · exact h.current t (List.mem_of_getElem? at_i) running
  through := by
    intro j u from_n at_j is
    rcases getElem?_set_cases at_j with ⟨rfl, rfl⟩ | ⟨-, at_j⟩
    · obtain ⟨rfl, through⟩ := h.through j t from_n at_i is
      refine ⟨rfl, fun alive => ?_⟩
      rcases moved with rfl | ⟨running, todo⟩
      · exact absurd rfl alive
      · obtain ⟨written, parts, stands⟩ := through (running.not_ended false)
        exact ⟨written, by rw [parts, ← todo], stands⟩
    · exact h.through j u from_n at_j is

theorem stack_key (h : Settled key stack n s) : stack.key = key := by
  obtain ⟨found, there, rfl⟩ := h.spec
  exact h.named key found there

/-- A thread has written its next object. -/
theorem advance (h : Settled key stack n s) {i : ℕ} {t : Thread} {o : Object}
    {current : Option (Stored Object)} {rest : List Object} (at_i : s.threads[i]? = some t)
    (pc : t.pc = .read o current rest) (stands : Stands s.server t.controller o) :
    Settled key stack n (s.moveTo i t (.applying rest)) where
  toOrderly := h.toOrderly.move at_i fun o' mem => by rw [pc]; exact List.mem_cons_of_mem o mem
  spec := h.spec
  current := forall_mem_set h.current fun _ =>
    h.current t (List.mem_of_getElem? at_i) (running_of_pc pc rfl)
  through := by
    intro j u from_n at_j is
    rcases getElem?_set_cases at_j with ⟨rfl, rfl⟩ | ⟨-, at_j⟩
    · obtain ⟨rfl, through⟩ := h.through j t from_n at_i is
      refine ⟨rfl, fun _ => ?_⟩
      obtain ⟨written, parts, earlier⟩ := through ((running_of_pc pc rfl).not_ended false)
      rw [pc] at parts
      exact ⟨written ++ [o], by rw [parts, List.append_assoc]; rfl,
        forall_mem_snoc earlier stands⟩
    · exact h.through j u from_n at_j is

theorem write (h : Settled key stack n s) (faithful : Faithful accept) {i : ℕ} {t : Thread}
    {o : Object} {current : Option (Stored Object)} {rest : List Object} {lost : Bool}
    {server : Server ObjectKey Object} (at_i : s.threads[i]? = some t)
    (pc : t.pc = .read o current rest)
    (applied : applyOwned accept s.server t.controller o current = some server) :
    Settled key stack n
      { s.moveTo i t (if lost then .ended false else .applying rest) with server := server } := by
  obtain ⟨stored, rfl, wanted⟩ := applyOwned_eq_some faithful applied
  have mem_t := List.mem_of_getElem? at_i
  have mem : o ∈ t.controller.desired t.stack :=
    h.listed t mem_t o (by rw [pc]; exact List.mem_cons_self)
  have running : t.Running := running_of_pc pc rfl
  have others : Settled key stack n { s with server := s.server.put o.key stored } :=
    h.setServer fun c o' mem' stands => stands.write mem' mem
      (fun is => h.current t mem_t running (is.trans h.stack_key)) wanted
  cases lost with
  | true => exact others.move at_i (.inl rfl)
  | false =>
    exact others.advance at_i pc ⟨⟨s.server.next, stored⟩, Server.put_objects_self, wanted⟩

theorem begin (h : Settled key stack n s) {c : Controller} {key' : StackKey}
    {found : Stored StackObject} (there : s.declared.objects key' = some found) :
    Settled key stack n { s with
      threads := s.threads ++
        [⟨c, found.object.stack, found.version, .applying (c.desired found.object.stack)⟩] } := by
  have is_current : found.object.stack.key = key → found.object.stack = stack := by
    intro is
    obtain ⟨found', there', rfl⟩ := h.spec
    obtain rfl : key' = key := (h.named key' found there).symm.trans is
    rw [Option.some.inj (there.symm.trans there')]
  refine ⟨h.toOrderly.begin _ _ _, h.spec, forall_mem_snoc h.current fun _ is => is_current is,
    fun i t from_n at_i is => ?_⟩
  rcases getElem?_snoc_cases at_i with rfl | at_i
  · exact ⟨is_current is, fun _ => ⟨[], rfl, fun o mem => absurd mem List.not_mem_nil⟩⟩
  · exact h.through i t from_n at_i is

theorem setStacks (h : Settled key stack n s) {key' : StackKey} {o : StackObject}
    (named : o.stack.key = key') (same : key' = key → o.stack = stack) :
    Settled key stack n { s with declared := s.declared.put key' o } :=
  { h with
    toOrderly := h.toOrderly.setStacks named
    spec := by
      by_cases is : key' = key
      · subst is
        exact ⟨⟨s.declared.next, o⟩, Server.put_objects_self, same rfl⟩
      · obtain ⟨found, there, eq⟩ := h.spec
        exact ⟨found, (Server.put_objects_of_ne (Ne.symm is)).trans there, eq⟩ }

/-- An object of somebody else. -/
theorem stands_elsewhere {server server' : Server ObjectKey Object} {k : ObjectKey}
    (same : ∀ k', k' ≠ k → server'.objects k' = server.objects k')
    (elsewhere : Elsewhere key k)
    (is : stack.key = key) (c : Controller) (o : Object) (mem : o ∈ c.desired stack)
    (stands : Stands server c o) : Stands server' c o := by
  obtain ⟨stored, there, plain⟩ := stands
  refine ⟨stored, (same _ ?_).trans there, plain⟩
  rintro rfl
  subst is
  obtain ⟨ns, name⟩ := key_of_mem_desired mem
  cases c with
  | operator => exact (elsewhere ns).1 name
  | watchdog => exact (elsewhere ns).2 name

theorem step (h : Settled key stack n s) (faithful : Faithful accept) {a : Action} {s' : State}
    (undisturbed : Undisturbed key s a) (steps : Steps accept s a s') : Settled key stack n s' := by
  cases steps with
  | edit named => exact h.setStacks (named h.named) fun is => absurd is undisturbed
  | @remove key' =>
    have other : key' ≠ key := undisturbed
    obtain ⟨found, there, eq⟩ := h.spec
    exact { h with
      toOrderly := h.toOrderly.remove key'
      spec := ⟨found, (Server.erase_objects_of_ne other.symm).trans there, eq⟩ }
  | begin there => exact h.begin there
  | last at_i pc =>
    exact h.move at_i (.inr ⟨running_of_pc pc rfl, by rw [pc]; rfl⟩)
  | get at_i pc =>
    exact h.move at_i (.inr ⟨running_of_pc pc rfl, by rw [pc]; rfl⟩)
  | write at_i pc applied => exact h.write faithful at_i pc applied
  | refused at_i => exact h.move at_i (.inl rfl)
  | observed at_i pc =>
    exact h.move at_i (.inr ⟨running_of_pc pc rfl, by rw [pc]; rfl⟩)
  | @status i t pods declared at_i pc _ updated =>
    have running : t.Running := running_of_pc pc rfl
    obtain ⟨-, -, -, stored, same, rfl⟩ := Server.update_eq_some updated
    cases same
    have moved : Settled key stack n (s.moveTo i t (.ended true)) :=
      h.move at_i (.inr ⟨running, by rw [pc]; rfl⟩)
    exact moved.setStacks rfl (h.current t (List.mem_of_getElem? at_i) running)
  | stale at_i => exact h.move at_i (.inl rfl)
  | fail at_i => exact h.move at_i (.inl rfl)
  | put =>
    exact h.setServer (stands_elsewhere (fun _ => Server.put_objects_of_ne) undisturbed h.stack_key)
  | erase =>
    exact h.setServer
      (stands_elsewhere (fun _ => Server.erase_objects_of_ne) undisturbed h.stack_key)

end Settled

/-- From a moment on in which nobody goes on with an older version of the stack, and as long as
nobody edits it or touches its objects: what a `Reconcile` that begins now and ends without an error
asks for stands in the cluster when it ends, and later. -/
theorem reconcile_converges {accept : Option Object → Object → Option Object}
    (faithful : Faithful accept) {s₀ s s' : State} {as as' : List Action} (named : s₀.Named)
    (idle : s₀.threads = []) (before : Run (step accept) anyAction s₀ as s) {key : StackKey}
    {found : Stored StackObject} (there : s.declared.objects key = some found)
    (current : ∀ t ∈ s.threads, t.Running → t.stack.key = key → t.stack = found.object.stack)
    (r : Run (step accept) (Undisturbed key) s as' s') {i : ℕ} {t : Thread}
    (new : s.threads.length ≤ i) (at_i : s'.threads[i]? = some t) (is : t.stack.key = key)
    (ok : t.pc = .ended true) :
    t.stack = found.object.stack ∧
      ∀ o ∈ t.controller.desired found.object.stack, Stands s'.server t.controller o := by
  have orderly : Orderly s := before.invariant Orderly
    ⟨named, by rw [idle]; exact fun t mem => absurd mem List.not_mem_nil⟩
    fun _ _ _ h _ taken => h.step (steps_of_step taken)
  have settled : Settled key found.object.stack s.threads.length s' := by
    refine r.invariant (Settled key found.object.stack s.threads.length) ?_
      fun _ _ _ h allowed taken => h.step faithful allowed (steps_of_step taken)
    refine ⟨orderly, ⟨found, there, rfl⟩, current, fun j u le at_j _ => ?_⟩
    rw [List.getElem?_eq_none le] at at_j
    cases at_j
  obtain ⟨eq, through⟩ := settled.through i t new at_i is
  refine ⟨eq, fun o mem => ?_⟩
  obtain ⟨written, parts, stands⟩ := through (by rw [ok]; simp)
  rw [ok, Pc.todo, List.append_nil, eq] at parts
  exact stands o (parts ▸ mem)

/-! ## A `Reconcile` on its own -/

theorem objectMeta_plain (c : Controller) (o : Object) : (o.plain c).objectMeta = o.objectMeta := by
  cases o <;> cases c <;> rfl

theorem key_plain (c : Controller) (o : Object) : (o.plain c).key = o.key := by
  cases o <;> cases c <;> rfl

theorem controller_of_mem_desired {c : Controller} {stack : Stack} {o : Object}
    (mem : o ∈ c.desired stack) : o.objectMeta.controller = some stack.toStackRef := by
  obtain ⟨resource, -, rfl⟩ := List.mem_map.1 mem
  cases resource <;> rfl

theorem desired_keys_nodup (c : Controller) (stack : Stack) :
    ((c.desired stack).map Object.key).Nodup := by
  refine List.Nodup.of_map ObjectKey.kind ?_
  cases c with
  | operator =>
    change [Kind.service, .serviceAccount, .roleBinding, .deployment].Nodup
    decide
  | watchdog =>
    change [Kind.service, .deployment].Nodup
    decide

/-- The steps of a `Reconcile` that nobody gets between. -/
def alone (i : ℕ) (pods : List Pod) : List Object → List Action
  | [] => [.get i, .close i pods]
  | _ :: rest => .get i :: .write i false :: alone i pods rest

section

variable {accept : Option Object → Object → Option Object}

/-- A write right after its `Get` is not too late. -/
theorem applyOwned_at_once (accepts : ∀ old o, (accept old o).isSome) (faithful : Faithful accept)
    (s : Server ObjectKey Object) (c : Controller) (o : Object) :
    ∃ stored, applyOwned accept s c o (s.objects o.key) = some (s.put o.key stored) ∧
      stored.plain c = o.plain c := by
  have written : ∃ s', applyOwned accept s c o (s.objects o.key) = some s' := by
    cases there : s.objects o.key with
    | none =>
      obtain ⟨stored, admitted⟩ := Option.isSome_iff_exists.1 (accepts none o)
      exact ⟨_, by rw [applyOwned, Server.create, there, admitted]; rfl⟩
    | some current =>
      obtain ⟨stored, admitted⟩ := Option.isSome_iff_exists.1
        (accepts (some current.object) (carry c current.object o))
      exact ⟨_, by rw [applyOwned, Server.update, there]; simp only [if_true, admitted]; rfl⟩
  obtain ⟨s', applied⟩ := written
  obtain ⟨stored, rfl, wanted⟩ := applyOwned_eq_some faithful applied
  exact ⟨stored, applied, wanted⟩

/-- What the `i`-th thread leaves of a stack, of the other stacks and of the other threads: all but
the status of the stack. -/
structure Leaves (stack : Stack) (i : ℕ) (s s' : State) : Prop where
  spec : ∃ found, s'.declared.objects stack.key = some found ∧ found.object.stack = stack
  declared : ∀ key, key ≠ stack.key → s'.declared.objects key = s.declared.objects key
  threads : ∀ j, j ≠ i → s'.threads[j]? = s.threads[j]?

/-- The last step of a thread whose stack has not changed: the operator writes the status. -/
theorem close_alone {s : State} {i : ℕ} (lt : i < s.threads.length) (t : Thread) (pods : List Pod)
    {found : Stored StackObject} (there : s.declared.objects t.stack.key = some found)
    (version : found.version = t.version) (current : found.object.stack = t.stack) :
    ∃ s', step accept (s.moveTo i t .closing) (.close i pods) = some s' ∧
      s'.threads = (s.moveTo i t (.ended true)).threads ∧ s'.server = s.server ∧
      Leaves t.stack i s s' := by
  have others : ∀ j, j ≠ i → (s.moveTo i t (.ended true)).threads[j]? = s.threads[j]? :=
    fun j other => List.getElem?_set_ne other.symm
  obtain ⟨c, stack, read, place⟩ := t
  cases c with
  | watchdog =>
    refine ⟨s.moveTo i ⟨_, stack, read, place⟩ (.ended true), ?_, rfl, rfl,
      ⟨found, there, current⟩, fun _ _ => rfl, others⟩
    simp [step, State.moveTo, List.getElem?_set_self lt]
  | operator =>
    have updated : s.declared.update (fun _ o => some o) stack.key read
        ⟨stack, podStatus pods⟩ = some (s.declared.put stack.key ⟨stack, podStatus pods⟩) := by
      simp only at there version
      simp [Server.update, there, version]
    refine ⟨{ s.moveTo i ⟨_, stack, read, place⟩ (.ended true) with
      declared := s.declared.put stack.key ⟨stack, podStatus pods⟩ }, ?_, rfl, rfl,
      ⟨_, Server.put_objects_self, rfl⟩, fun _ => Server.put_objects_of_ne, others⟩
    simp [step, State.moveTo, List.getElem?_set_self lt, updated]

/-- A thread that goes on alone ends, and leaves what it wrote. -/
theorem run_alone (accepts : ∀ old o, (accept old o).isSome) (faithful : Faithful accept)
    (pods : List Pod) {todo : List Object} (distinct : (todo.map Object.key).Nodup) {s : State}
    {i : ℕ} {t : Thread} (at_i : s.threads[i]? = some t) (pc : t.pc = .applying todo)
    {found : Stored StackObject} (there : s.declared.objects t.stack.key = some found)
    (version : found.version = t.version) (current : found.object.stack = t.stack) :
    ∃ s', Run (step accept) anyAction s (alone i pods todo) s' ∧
      s'.threads[i]? = some { t with pc := .ended true } ∧
      (∀ o ∈ todo, Stands s'.server t.controller o) ∧
      (∀ k, k ∉ todo.map Object.key → s'.server.objects k = s.server.objects k) ∧
      Leaves t.stack i s s' := by
  have lt := (List.getElem?_eq_some_iff.1 at_i).1
  induction todo generalizing s t with
  | nil =>
    have got : step accept s (.get i) = some (s.moveTo i t .closing) := by
      simp [step, at_i, pc]
    obtain ⟨s', closed, threads, server, leaves⟩ := close_alone lt t pods there version current
    refine ⟨s', .cons _ trivial got (.cons _ trivial closed .nil), ?_,
      fun o mem => absurd mem List.not_mem_nil, fun k _ => by rw [server], leaves⟩
    rw [threads]
    exact List.getElem?_set_self lt
  | cons o rest ih =>
    obtain ⟨stored, applied, wanted⟩ := applyOwned_at_once accepts faithful s.server t.controller o
    obtain ⟨fresh, distinct⟩ := List.nodup_cons.1 distinct
    let read : Pc := .read o (s.server.objects o.key) rest
    have got : step accept s (.get i) = some (s.moveTo i t read) := by
      simp [step, at_i, pc, read]
    have wrote : step accept (s.moveTo i t read) (.write i false) =
        some { s.moveTo i t (.applying rest) with server := s.server.put o.key stored } := by
      simp [step, State.moveTo, List.getElem?_set_self lt, read, applied]
    obtain ⟨s', r, ended, stands, same, spec, declared, threads⟩ :=
      ih (s := { s.moveTo i t (.applying rest) with server := s.server.put o.key stored })
        (t := { t with pc := .applying rest }) distinct (List.getElem?_set_self lt) rfl there
        version current (by simpa [State.moveTo] using lt)
    refine ⟨s', .cons _ trivial got (.cons _ trivial wrote r), ended, ?_, ?_,
      ⟨spec, declared, fun j other => ?_⟩⟩
    · refine List.forall_mem_cons.2 ⟨⟨⟨s.server.next, stored⟩, ?_, wanted⟩, stands⟩
      rw [same _ fresh]
      exact Server.put_objects_self
    · intro k other
      obtain ⟨ne, later⟩ := not_or.1 (fun h => other (List.mem_cons.2 h))
      rw [same k later]
      exact Server.put_objects_of_ne ne
    · rw [threads j other]
      exact List.getElem?_set_ne other.symm

/-- From every state of the cluster, whatever stands there under the names of the stack's objects: a
`Reconcile` of a stack that goes on alone ends without an error, what it asks for stands there
afterwards under the control of the stack, and nothing else has changed: no other object, no other
stack, no other thread, and of the stack itself the status only. -/
theorem reconcile_alone_converges {accept : Option Object → Object → Option Object}
    (accepts : ∀ old o, (accept old o).isSome) (faithful : Faithful accept) {s : State}
    (named : s.Named) {key : StackKey} {found : Stored StackObject}
    (there : s.declared.objects key = some found) (c : Controller) (pods : List Pod) :
    ∃ s', Run (step accept) anyAction s
        (.begin c key :: alone s.threads.length pods (c.desired found.object.stack)) s' ∧
      (∃ t, s'.threads[s.threads.length]? = some t ∧ t.pc = .ended true) ∧
      (∀ o ∈ c.desired found.object.stack, ∃ stored, s'.server.objects o.key = some stored ∧
        stored.object.plain c = o.plain c ∧
        stored.object.objectMeta.controller = some found.object.stack.toStackRef) ∧
      (∀ k, k ∉ (c.desired found.object.stack).map Object.key →
        s'.server.objects k = s.server.objects k) ∧
      Leaves found.object.stack s.threads.length s s' := by
  let t : Thread :=
    ⟨c, found.object.stack, found.version, .applying (c.desired found.object.stack)⟩
  have began : step accept s (.begin c key) = some { s with threads := s.threads ++ [t] } := by
    simp [step, there, t]
  have at_new : (s.threads ++ [t])[s.threads.length]? = some t := by simp
  have under : s.declared.objects t.stack.key = some found := by
    rw [show t.stack.key = key from named key found there]
    exact there
  obtain ⟨s', r, ended, stands, same, spec, declared, threads⟩ := run_alone accepts faithful pods
    (desired_keys_nodup c found.object.stack) (s := { s with threads := s.threads ++ [t] }) at_new
    rfl under rfl rfl
  refine ⟨s', .cons _ trivial began r, ⟨_, ended, rfl⟩, fun o mem => ?_, same,
    ⟨spec, declared, fun j other => ?_⟩⟩
  · obtain ⟨stored, at_key, plain⟩ := stands o mem
    refine ⟨stored, at_key, plain, ?_⟩
    rw [← objectMeta_plain c, plain, objectMeta_plain, controller_of_mem_desired mem]
  · rw [threads j other]
    rcases Nat.lt_or_gt_of_ne other with before | behind
    · exact List.getElem?_append_left before
    · have short : (s.threads ++ [t]).length ≤ j := by
        rw [List.length_append]
        exact behind
      rw [List.getElem?_eq_none short, List.getElem?_eq_none (Nat.le_of_lt behind)]

end

/-- A server that gives an address to every service and refuses nothing. -/
def assigning : Option Object → Object → Option Object
  | none, .service d => some (.service { d with clusterIP := "10.0.0.1" })
  | _, o => some o

theorem assigning_faithful : Faithful assigning := by
  rintro (_ | old) (d | d | d | d) stored ⟨⟩ <;> rfl

theorem assigning_accepts (old : Option Object) (o : Object) : (assigning old o).isSome := by
  cases old <;> cases o <;> rfl

/-- A stack of five nodes. -/
def fiveNodes : Spec := ⟨some 5, none, "", "", "", ⟨"mysql", "dsn"⟩, noResources⟩

/-- A cluster with one stack and nothing for it. -/
def oneStack : State where
  declared := ⟨fun _ => none, 0⟩
  server := ⟨fun _ => none, 0⟩
  threads := []

theorem reconcile_converges_five :
    ∃ s s', Run (step assigning) anyAction oneStack [.edit ("ns", "a") fiveNodes] s ∧
      Run (step assigning) (Undisturbed ("ns", "a")) s
        (.begin .watchdog ("ns", "a") ::
          alone 0 [] (Controller.watchdog.desired ⟨⟨"ns", "a", 0⟩, fiveNodes⟩)) s' ∧
      ∀ o ∈ Controller.watchdog.desired ⟨⟨"ns", "a", 0⟩, fiveNodes⟩,
        Stands s'.server .watchdog o := by
  let stack : Stack := ⟨⟨"ns", "a", 0⟩, fiveNodes⟩
  let s : State :=
    { oneStack with declared := oneStack.declared.put ("ns", "a") ⟨stack, ⟨0, []⟩⟩ }
  have edited : Run (step assigning) anyAction oneStack [.edit ("ns", "a") fiveNodes] s :=
    .cons _ trivial rfl .nil
  obtain ⟨s', r, ended⟩ := Run.exists_of_exec (step assigning) (Undisturbed ("ns", "a")) s
    (.begin .watchdog ("ns", "a") :: alone 0 [] (Controller.watchdog.desired stack))
    (fun s' => s'.threads[0]?.any (fun t => t.stack = stack ∧ t.controller = .watchdog ∧
      t.pc = .ended true) = true) (by decide +kernel)
  obtain ⟨t, at_0, is⟩ := (Option.any_eq_true _ _).1 ended
  obtain ⟨eq, watchdog, ok⟩ := of_decide_eq_true is
  refine ⟨s, s', edited, r, ?_⟩
  have there : s.declared.objects ("ns", "a") = some ⟨0, ⟨stack, ⟨0, []⟩⟩⟩ :=
    Server.put_objects_self
  have converged := reconcile_converges assigning_faithful (fun _ _ h => by cases h) rfl edited
    there
    (fun t mem => absurd mem List.not_mem_nil) r (Nat.zero_le 0) at_0 (by rw [eq]; rfl) ok
  rw [watchdog] at converged
  exact converged.2

/-- The nodes that a deployment asks for. -/
def Object.replicas : Object → Option ℤ
  | .deployment d => some d.replicas
  | _ => none

/-- A watchdog that read the stack before it was edited writes last: the new one has ended, and the
old number of nodes stands there until somebody reconciles again. -/
theorem stale_reconcile_reverts :
    ∃ s, Run (step assigning) anyAction oneStack
        ([.edit ("ns", "a") fiveNodes, .begin .watchdog ("ns", "a"),
          .edit ("ns", "a") { fiveNodes with replicas := some 7 }, .begin .watchdog ("ns", "a")] ++
          alone 1 [] (Controller.watchdog.desired ⟨⟨"ns", "a", 0⟩, fiveNodes⟩) ++
          [.get 0, .write 0 false, .get 0, .write 0 false]) s ∧
      s.threads[1]?.map Thread.pc = some (.ended true) ∧
      (s.server.objects ⟨.deployment, "ns", "a-olric"⟩).map (fun stored => stored.object.replicas) =
        some (some 5) :=
  Run.exists_of_exec _ _ _ _ _ (by decide +kernel)

theorem reconcile_alone_converges_foreign :
    ∃ s', Run (step assigning) anyAction
        ⟨oneStack.declared.put ("ns", "a") ⟨⟨⟨"ns", "a", 0⟩, fiveNodes⟩, ⟨0, []⟩⟩,
          oneStack.server.put ⟨.serviceAccount, "ns", "a-watchdog"⟩
            (.serviceAccount ⟨⟨"a-watchdog", "ns", [], [], some ⟨"ns", "b", 7⟩⟩⟩), []⟩
        (.begin .operator ("ns", "a") ::
          alone 0 [] (Controller.operator.desired ⟨⟨"ns", "a", 0⟩, fiveNodes⟩)) s' ∧
      ∃ stored, s'.server.objects ⟨.serviceAccount, "ns", "a-watchdog"⟩ = some stored ∧
        stored.object.objectMeta.controller = some ⟨"ns", "a", 0⟩ := by
  obtain ⟨s', r, -, stands, -, -⟩ := reconcile_alone_converges assigning_accepts assigning_faithful
    (s := ⟨oneStack.declared.put ("ns", "a") ⟨⟨⟨"ns", "a", 0⟩, fiveNodes⟩, ⟨0, []⟩⟩,
      oneStack.server.put ⟨.serviceAccount, "ns", "a-watchdog"⟩
        (.serviceAccount ⟨⟨"a-watchdog", "ns", [], [], some ⟨"ns", "b", 7⟩⟩⟩), []⟩)
    (fun key found there => by
      by_cases same : key = ("ns", "a")
      · subst same
        cases Server.put_objects_self.symm.trans there
        rfl
      · cases (Server.put_objects_of_ne same).symm.trans there)
    Server.put_objects_self .operator []
  obtain ⟨stored, there, -, controller⟩ := stands (Object.setControllerReference ⟨"ns", "a", 0⟩
    (.serviceAccount (watchdogServiceAccount ⟨⟨"ns", "a", 0⟩, fiveNodes⟩))) (by decide +kernel)
  exact ⟨s', r, stored, there, controller⟩

/-! ## Fields that are taken over -/

/-- The fields that `applyOwned` takes over are the same.  The selector of the operator's deployment
and the role of its binding, which the server does not let anybody change either, are not among
them. -/
def SameFixed (c : Controller) : Object → Object → Prop
  | .service a, .service b => a.clusterIP = b.clusterIP ∧ a.clusterIPs = b.clusterIPs ∧
      a.ipFamilies = b.ipFamilies ∧ a.ipFamilyPolicy = b.ipFamilyPolicy
  | .deployment a, .deployment b => c = .watchdog → a.selector = b.selector
  | _, _ => True

theorem sameFixed_carry (c : Controller) {current desired : Object}
    (same : current.key = desired.key) : SameFixed c (carry c current desired) current := by
  have kinds := congrArg ObjectKey.kind same
  cases current <;> cases desired <;> cases kinds <;> cases c <;> simp [carry, SameFixed]

/-- What was read stands there as long as its version does. -/
structure Watching (s : State) : Prop where
  numbered : s.server.Numbered
  keyed : ∀ k stored, s.server.objects k = some stored → stored.object.key = k
  seen : ∀ t ∈ s.threads, ∀ o current rest, t.pc = .read o (some current) rest →
    s.server.Seen o.key current ∧ current.object.key = o.key

namespace Watching

variable {s : State}

theorem setStacks (h : Watching s) (declared : Server StackKey StackObject) :
    Watching { s with declared := declared } := ⟨h.numbered, h.keyed, h.seen⟩

theorem put (h : Watching s) {k : ObjectKey} {o : Object} (keyed : o.key = k) :
    Watching { s with server := s.server.put k o } where
  numbered := h.numbered.put k o
  keyed k' stored there := by
    by_cases same : k' = k
    · subst same
      cases Server.put_objects_self.symm.trans there
      exact keyed
    · exact h.keyed k' stored ((Server.put_objects_of_ne same).symm.trans there)
  seen t mem o' current rest pc :=
    ⟨(h.seen t mem o' current rest pc).1.put k o, (h.seen t mem o' current rest pc).2⟩

theorem erase (h : Watching s) (k : ObjectKey) :
    Watching { s with server := s.server.erase k } where
  numbered := h.numbered.erase k
  keyed k' stored there := h.keyed k' stored (Server.erase_objects_eq_some there)
  seen t mem o current rest pc :=
    ⟨(h.seen t mem o current rest pc).1.erase k, (h.seen t mem o current rest pc).2⟩

/-- A thread moves on; what it has read, if anything, it has read now. -/
theorem move (h : Watching s) {i : ℕ} {t : Thread} {pc : Pc}
    (read : ∀ o current rest, pc = .read o (some current) rest →
      s.server.objects o.key = some current) : Watching (s.moveTo i t pc) where
  numbered := h.numbered
  keyed := h.keyed
  seen := forall_mem_set h.seen fun o current rest eq =>
    ⟨h.numbered.seen (read o current rest eq), h.keyed _ _ (read o current rest eq)⟩

theorem begin (h : Watching s) (c : Controller) (stack : Stack) (version : ℕ) :
    Watching
      { s with threads := s.threads ++ [⟨c, stack, version, .applying (c.desired stack)⟩] } :=
  ⟨h.numbered, h.keyed, forall_mem_snoc h.seen fun _ _ _ eq => by cases eq⟩

theorem step {accept : Option Object → Object → Option Object} (faithful : Faithful accept)
    {s' : State} {a : Action} (h : Watching s) (steps : Steps accept s a s') : Watching s' := by
  cases steps with
  | edit => exact h.setStacks _
  | remove => exact h.setStacks _
  | begin => exact h.begin _ _ _
  | last => exact h.move fun _ _ _ eq => by cases eq
  | get =>
    refine h.move fun _ _ _ eq => ?_
    obtain ⟨rfl, same, -⟩ := Pc.read.inj eq
    exact same
  | @write _ _ o _ _ lost _ _ _ applied =>
    obtain ⟨stored, rfl, wanted⟩ := applyOwned_eq_some faithful applied
    have keyed : stored.key = o.key := by
      rw [← key_plain, wanted, key_plain]
    cases lost with
    | true => exact (h.move fun _ _ _ eq => by cases eq).put keyed
    | false => exact (h.move fun _ _ _ eq => by cases eq).put keyed
  | refused => exact h.move fun _ _ _ eq => by cases eq
  | observed => exact h.move fun _ _ _ eq => by cases eq
  | status => exact (h.move fun _ _ _ eq => by cases eq).setStacks _
  | stale => exact h.move fun _ _ _ eq => by cases eq
  | fail => exact h.move fun _ _ _ eq => by cases eq
  | put => exact h.put rfl
  | erase => exact h.erase _

end Watching

/-- No update changes an address of a service, nor the watchdog's the selector of a deployment: at
any time in any run, an update that comes with the version that stands there also comes with the
fields that stand there. -/
theorem update_keeps_fixed_fields {accept : Option Object → Object → Option Object}
    (faithful : Faithful accept) {s₀ s : State} {as : List Action} (numbered : s₀.server.Numbered)
    (keyed : ∀ k stored, s₀.server.objects k = some stored → stored.object.key = k)
    (idle : s₀.threads = []) (r : Run (Operator.step accept) anyAction s₀ as s) {t : Thread}
    (mem : t ∈ s.threads) {o : Object} {current standing : Stored Object} {rest : List Object}
    (pc : t.pc = .read o (some current) rest) (there : s.server.objects o.key = some standing)
    (version : standing.version = current.version) :
    SameFixed t.controller (carry t.controller current.object o) standing.object := by
  have watching : Watching s := r.invariant Watching
    ⟨numbered, keyed, by rw [idle]; exact fun t mem => absurd mem List.not_mem_nil⟩
    fun _ _ _ h _ taken => h.step faithful (steps_of_step taken)
  obtain ⟨seen, same⟩ := watching.seen t mem o current rest pc
  rw [seen.same standing there version]
  exact sameFixed_carry t.controller same

/-- Two watchdogs, the second of which finds the service of the first. -/
theorem update_keeps_fixed_fields_second :
    ∃ s t o current rest, Run (Operator.step assigning) anyAction oneStack
        [.edit ("ns", "a") fiveNodes, .begin .watchdog ("ns", "a"), .begin .watchdog ("ns", "a"),
          .get 0, .write 0 true, .get 1] s ∧
      t ∈ s.threads ∧ t.pc = .read o (some current) rest ∧
      SameFixed t.controller (carry t.controller current.object o) current.object := by
  obtain ⟨s, r, found⟩ := Run.exists_of_exec (Operator.step assigning) anyAction oneStack
    [.edit ("ns", "a") fiveNodes, .begin .watchdog ("ns", "a"), .begin .watchdog ("ns", "a"),
      .get 0, .write 0 true, .get 1]
    (fun s => s.threads[1]?.any (fun t => match t.pc with
      | .read o (some current) _ => s.server.objects o.key = some current
      | _ => False) = true) (by decide +kernel)
  obtain ⟨t, at_1, is⟩ := (Option.any_eq_true _ _).1 found
  have mem := List.mem_of_getElem? at_1
  split at is
  · rename_i o current rest pc
    exact ⟨s, t, o, current, rest, r, mem, pc, update_keeps_fixed_fields assigning_faithful
      (fun _ _ h => by cases h) (fun _ _ h => by cases h) rfl r mem pc (of_decide_eq_true is) rfl⟩
  · cases is

end OlricStack.Operator
