import Mathlib.Logic.Function.Basic
import Mathlib.Algebra.Group.Int.Defs
import OlricStack.Lib.Run
import OlricStack.Lib.Sync

/-!
# Locks by name

`locker.Locker`: a mutex for each name, which is made by the first `Lock` of the name and removed by
the `Unlock` that finds nobody waiting.  `mu` guards the map of the locks; a caller of `Lock` counts
itself as a waiter under it, and waits for the lock of its name and stops being counted outside.
So the look at the waiters, the removal and the release of `Unlock` are separate steps here.

Two callers are never inside with the same name, an `Unlock` always finds the lock that its caller
holds, and a name that nobody uses is not in the map (`locker_excludes`).
-/

namespace OlricStack.Dmap.Locker

open Transition Sync

variable {ν : Type*} [DecidableEq ν]

/-- `lockCtr`; for the width of `waiters` see `Ok.waiters_int32`. -/
structure LockCtr where
  mu : Bool
  waiters : ℤ
deriving DecidableEq

/-- Where a caller of `Lock` and then `Unlock` is; `a` is the address of a `lockCtr`. -/
inductive Pc
  | locking
  /-- counted as a waiter -/
  | waiting (a : ℕ)
  /-- has the lock of the name, and is still counted -/
  | locked (a : ℕ)
  /-- `Lock` has returned -/
  | inside (a : ℕ)
  /-- `Unlock` has `mu` and what it has found -/
  | unlocking (a : ℕ)
  /-- has looked at the waiters -/
  | counted (a : ℕ)
  /-- has released the lock of the name -/
  | released
  | done
  /-- `ErrNoSuchLock` -/
  | noSuchLock
  /-- unlock of an unlocked mutex, which ends the process -/
  | crashed
deriving DecidableEq

/-- A caller, with the name of its lock. -/
structure Thread (ν : Type*) where
  name : ν
  pc : Pc
deriving DecidableEq

/-- `Locker`, with the locks by their addresses, and its callers. -/
structure State (ν : Type*) where
  locks : ν → Option ℕ
  ctrs : ℕ → LockCtr
  /-- the address of the next `lockCtr` -/
  next : ℕ
  mu : Bool
  threads : List (Thread ν)

namespace State

/-- Nobody has called. -/
def start : State ν := ⟨fun _ => none, fun _ => ⟨false, 0⟩, 0, false, []⟩

/-- The thread `t`, which is the `i`-th, is at `pc` now. -/
def moveTo (s : State ν) (i : ℕ) (t : Thread ν) (pc : Pc) : State ν :=
  { s with threads := s.threads.set i { t with pc := pc } }

/-- The lock at an address is `c` now. -/
def setCtr (s : State ν) (a : ℕ) (c : LockCtr) : State ν :=
  { s with ctrs := Function.update s.ctrs a c }

end State

/-- What the callers do. -/
inductive Action (ν : Type*)
  /-- a new caller -/
  | call (name : ν)
  | enter (i : ℕ)
  | acquire (i : ℕ)
  | dec (i : ℕ)
  | unlock (i : ℕ)
  | count (i : ℕ)
  | release (i : ℕ)
  | exit (i : ℕ)

/-- One step of a caller. -/
def step (s : State ν) : Action ν → Option (State ν)
  | .call name => some { s with threads := s.threads ++ [⟨name, .locking⟩] }
  | .enter i =>
    match s.threads[i]? with
    | some t =>
      if t.pc ≠ .locking ∨ s.mu then none
      else
        match s.locks t.name with
        | some a =>
          some ((s.setCtr a { s.ctrs a with waiters := (s.ctrs a).waiters + 1 }).moveTo i t
            (.waiting a))
        | none =>
          some { (s.setCtr s.next ⟨false, 0 + 1⟩).moveTo i t (.waiting s.next) with
            locks := Function.update s.locks t.name (some s.next)
            next := s.next + 1 }
    | none => none
  | .acquire i =>
    match s.threads[i]? with
    | some t =>
      match t.pc with
      | .waiting a =>
        if (s.ctrs a).mu then none
        else some ((s.setCtr a { s.ctrs a with mu := true }).moveTo i t (.locked a))
      | _ => none
    | none => none
  | .dec i =>
    match s.threads[i]? with
    | some t =>
      match t.pc with
      | .locked a =>
        some ((s.setCtr a { s.ctrs a with waiters := (s.ctrs a).waiters - 1 }).moveTo i t
          (.inside a))
      | _ => none
    | none => none
  | .unlock i =>
    match s.threads[i]? with
    | some t =>
      match t.pc with
      | .inside _ =>
        if s.mu then none
        else
          match s.locks t.name with
          | none => some (s.moveTo i t .noSuchLock)
          | some a => some { s.moveTo i t (.unlocking a) with mu := true }
      | _ => none
    | none => none
  | .count i =>
    match s.threads[i]? with
    | some t =>
      match t.pc with
      | .unlocking a =>
        if (s.ctrs a).waiters = 0 then
          some { s.moveTo i t (.counted a) with locks := Function.update s.locks t.name none }
        else some (s.moveTo i t (.counted a))
      | _ => none
    | none => none
  | .release i =>
    match s.threads[i]? with
    | some t =>
      match t.pc with
      | .counted a =>
        if (s.ctrs a).mu then
          some ((s.setCtr a { s.ctrs a with mu := false }).moveTo i t .released)
        else some (s.moveTo i t .crashed)
      | _ => none
    | none => none
  | .exit i =>
    match s.threads[i]? with
    | some t =>
      if t.pc = .released then some { s.moveTo i t .done with mu := false } else none
    | none => none

/-! ## What a step does -/

/-- The transitions of `step`, each with what it needs. -/
inductive Steps (s : State ν) : Action ν → State ν → Prop
  | call {name : ν} :
      Steps s (.call name) { s with threads := s.threads ++ [⟨name, .locking⟩] }
  | enter {i : ℕ} {t : Thread ν} {a : ℕ} (at_i : s.threads[i]? = some t) (pc : t.pc = .locking)
      (free : s.mu = false) (found : s.locks t.name = some a) :
      Steps s (.enter i)
        ((s.setCtr a { s.ctrs a with waiters := (s.ctrs a).waiters + 1 }).moveTo i t (.waiting a))
  | create {i : ℕ} {t : Thread ν} (at_i : s.threads[i]? = some t) (pc : t.pc = .locking)
      (free : s.mu = false) (missing : s.locks t.name = none) :
      Steps s (.enter i)
        { (s.setCtr s.next ⟨false, 0 + 1⟩).moveTo i t (.waiting s.next) with
          locks := Function.update s.locks t.name (some s.next)
          next := s.next + 1 }
  | acquire {i : ℕ} {t : Thread ν} {a : ℕ} (at_i : s.threads[i]? = some t) (pc : t.pc = .waiting a)
      (free : (s.ctrs a).mu = false) :
      Steps s (.acquire i) ((s.setCtr a { s.ctrs a with mu := true }).moveTo i t (.locked a))
  | dec {i : ℕ} {t : Thread ν} {a : ℕ} (at_i : s.threads[i]? = some t) (pc : t.pc = .locked a) :
      Steps s (.dec i)
        ((s.setCtr a { s.ctrs a with waiters := (s.ctrs a).waiters - 1 }).moveTo i t (.inside a))
  | missing {i : ℕ} {t : Thread ν} {a : ℕ} (at_i : s.threads[i]? = some t) (pc : t.pc = .inside a)
      (missing : s.locks t.name = none) : Steps s (.unlock i) (s.moveTo i t .noSuchLock)
  | unlock {i : ℕ} {t : Thread ν} {a a' : ℕ} (at_i : s.threads[i]? = some t) (pc : t.pc = .inside a)
      (free : s.mu = false) (found : s.locks t.name = some a') :
      Steps s (.unlock i) { s.moveTo i t (.unlocking a') with mu := true }
  | delete {i : ℕ} {t : Thread ν} {a : ℕ} (at_i : s.threads[i]? = some t)
      (pc : t.pc = .unlocking a) (unused : (s.ctrs a).waiters = 0) :
      Steps s (.count i)
        { s.moveTo i t (.counted a) with locks := Function.update s.locks t.name none }
  | keep {i : ℕ} {t : Thread ν} {a : ℕ} (at_i : s.threads[i]? = some t)
      (pc : t.pc = .unlocking a) (used : (s.ctrs a).waiters ≠ 0) :
      Steps s (.count i) (s.moveTo i t (.counted a))
  | release {i : ℕ} {t : Thread ν} {a : ℕ} (at_i : s.threads[i]? = some t) (pc : t.pc = .counted a)
      (held : (s.ctrs a).mu = true) :
      Steps s (.release i) ((s.setCtr a { s.ctrs a with mu := false }).moveTo i t .released)
  | crash {i : ℕ} {t : Thread ν} {a : ℕ} (at_i : s.threads[i]? = some t) (pc : t.pc = .counted a)
      (free : (s.ctrs a).mu = false) : Steps s (.release i) (s.moveTo i t .crashed)
  | exit {i : ℕ} {t : Thread ν} (at_i : s.threads[i]? = some t) (pc : t.pc = .released) :
      Steps s (.exit i) { s.moveTo i t .done with mu := false }

theorem steps_of_step {s u : State ν} {a : Action ν} (h : step s a = some u) : Steps s a u := by
  cases a with
  | call name =>
    cases h
    exact .call
  | enter i =>
    simp only [step] at h
    split at h
    · next t at_i =>
      split_ifs at h with blocked
      obtain ⟨pc, free⟩ := not_or.1 blocked
      split at h
      · next a found =>
        cases h
        exact .enter at_i (not_not.1 pc) (by simpa using free) found
      · next missing =>
        cases h
        exact .create at_i (not_not.1 pc) (by simpa using free) missing
    · cases h
  | acquire i =>
    simp only [step] at h
    split at h
    · next t at_i =>
      split at h
      · next a pc =>
        split_ifs at h with held
        cases h
        exact .acquire at_i pc (by simpa using held)
      · cases h
    · cases h
  | dec i =>
    simp only [step] at h
    split at h
    · next t at_i =>
      split at h
      · next a pc =>
        cases h
        exact .dec at_i pc
      · cases h
    · cases h
  | unlock i =>
    simp only [step] at h
    split at h
    · next t at_i =>
      split at h
      · next a pc =>
        split_ifs at h with held
        split at h
        · next missing =>
          cases h
          exact .missing at_i pc missing
        · next a' found =>
          cases h
          exact .unlock at_i pc (by simpa using held) found
      · cases h
    · cases h
  | count i =>
    simp only [step] at h
    split at h
    · next t at_i =>
      split at h
      · next a pc =>
        split_ifs at h with unused
        · cases h
          exact .delete at_i pc unused
        · cases h
          exact .keep at_i pc unused
      · cases h
    · cases h
  | release i =>
    simp only [step] at h
    split at h
    · next t at_i =>
      split at h
      · next a pc =>
        split_ifs at h with held
        · cases h
          exact .release at_i pc held
        · cases h
          exact .crash at_i pc (by simpa using held)
      · cases h
    · cases h
  | exit i =>
    simp only [step] at h
    split at h
    · next t at_i =>
      split_ifs at h with pc
      cases h
      exact .exit at_i pc
    · cases h

theorem Steps.call_or_move {s u : State ν} {act : Action ν} (steps : Steps s act u) :
    (∃ name, act = .call name ∧ u.threads = s.threads ++ [⟨name, .locking⟩]) ∨
      ∃ (i : ℕ) (t : Thread ν) (pc : Pc), s.threads[i]? = some t ∧
        u.threads = s.threads.set i { t with pc := pc } ∧
        ∀ a, t.pc = .inside a → act = .unlock i := by
  have other : ∀ {pc : Pc} {i : ℕ} {t : Thread ν}, t.pc = pc → (∀ a, pc ≠ .inside a) →
      ∀ a, t.pc = .inside a → act = .unlock i := fun pc ne a inside =>
    absurd (pc.symm.trans inside) (ne a)
  cases steps with
  | call => exact .inl ⟨_, rfl, rfl⟩
  | enter at_i pc => exact .inr ⟨_, _, _, at_i, rfl, other pc fun _ => Pc.noConfusion⟩
  | create at_i pc => exact .inr ⟨_, _, _, at_i, rfl, other pc fun _ => Pc.noConfusion⟩
  | acquire at_i pc => exact .inr ⟨_, _, _, at_i, rfl, other pc fun _ => Pc.noConfusion⟩
  | dec at_i pc => exact .inr ⟨_, _, _, at_i, rfl, other pc fun _ => Pc.noConfusion⟩
  | missing at_i => exact .inr ⟨_, _, _, at_i, rfl, fun _ _ => rfl⟩
  | unlock at_i => exact .inr ⟨_, _, _, at_i, rfl, fun _ _ => rfl⟩
  | delete at_i pc => exact .inr ⟨_, _, _, at_i, rfl, other pc fun _ => Pc.noConfusion⟩
  | keep at_i pc => exact .inr ⟨_, _, _, at_i, rfl, other pc fun _ => Pc.noConfusion⟩
  | release at_i pc => exact .inr ⟨_, _, _, at_i, rfl, other pc fun _ => Pc.noConfusion⟩
  | crash at_i pc => exact .inr ⟨_, _, _, at_i, rfl, other pc fun _ => Pc.noConfusion⟩
  | exit at_i pc => exact .inr ⟨_, _, _, at_i, rfl, other pc fun _ => Pc.noConfusion⟩

/-! ## The places of the callers -/

namespace Pc

/-- Is or was waiting for the lock at `a`, and has not looked at its waiters. -/
def refers (a : ℕ) : Pc → Bool
  | .waiting b | .locked b | .inside b | .unlocking b => b == a
  | _ => false

/-- Counted as a waiter of the lock at `a`. -/
def waits (a : ℕ) : Pc → Bool
  | .waiting b | .locked b => b == a
  | _ => false

/-- Has the lock at `a`. -/
def holds (a : ℕ) : Pc → Bool
  | .locked b | .inside b | .unlocking b | .counted b => b == a
  | _ => false

/-- Has `mu`. -/
def inMu : Pc → Bool
  | .unlocking _ | .counted _ | .released => true
  | _ => false

theorem refers_of_waits {a : ℕ} {pc : Pc} (h : pc.waits a = true) : pc.refers a = true := by
  cases pc <;> first | exact h | cases h

end Pc

/-- What holds however the callers interleave: a caller refers to the lock of its name, and the
counts are right. -/
structure Ok (s : State ν) : Prop where
  named : ∀ t ∈ s.threads, ∀ a, t.pc.refers a = true → s.locks t.name = some a
  injective : ∀ m n a, s.locks m = some a → s.locks n = some a → m = n
  fresh : ∀ n a, s.locks n = some a → a < s.next
  allocated : ∀ t ∈ s.threads, ∀ a, t.pc.holds a = true → a < s.next
  waiters : ∀ a < s.next, (s.ctrs a).waiters = s.threads.countP fun t => t.pc.waits a
  held : ∀ a < s.next, (s.threads.countP fun t => t.pc.holds a) = if (s.ctrs a).mu then 1 else 0
  guarded : (s.threads.countP fun t => t.pc.inMu) = if s.mu then 1 else 0
  used : ∀ n a, s.locks n = some a → ∃ t ∈ s.threads, t.name = n ∧ t.pc.refers a = true
  sound : ∀ t ∈ s.threads, t.pc ≠ .noSuchLock ∧ t.pc ≠ .crashed

theorem update_none_eq_some {α β : Type*} [DecidableEq α] {f : α → Option β} {a a' : α} {b : β}
    (h : Function.update f a none a' = some b) : a' ≠ a ∧ f a' = some b := by
  by_cases same : a' = a
  · rw [same, Function.update_self] at h
    cases h
  · rw [Function.update_of_ne same] at h
    exact ⟨same, h⟩

namespace Ok

variable {s u : State ν} {i : ℕ} {t : Thread ν}

omit [DecidableEq ν] in
/-- A caller moves, and the map is as it was. -/
theorem move (h : Ok s) (at_i : s.threads[i]? = some t) (pc : Pc) (ctrs : ℕ → LockCtr) (mu : Bool)
    (named : ∀ a, pc.refers a = true → s.locks t.name = some a)
    (allocated : ∀ a, pc.holds a = true → a < s.next)
    (waiters : ∀ a < s.next, (ctrs a).waiters + (if t.pc.waits a then 1 else 0) =
      (s.ctrs a).waiters + if pc.waits a then 1 else 0)
    (held : ∀ a < s.next, (if (ctrs a).mu then 1 else 0) + (if t.pc.holds a then 1 else 0) =
      (if (s.ctrs a).mu then 1 else 0) + if pc.holds a then 1 else 0)
    (guarded : (if mu then 1 else 0) + (if t.pc.inMu then 1 else 0) =
      (if s.mu then 1 else 0) + if pc.inMu then 1 else 0)
    (used : ∀ a, t.pc.refers a = true → pc.refers a = true ∨
      ∃ (j : ℕ) (t' : Thread ν), j ≠ i ∧ s.threads[j]? = some t' ∧ t'.name = t.name ∧
        t'.pc.refers a = true)
    (sound : pc ≠ .noSuchLock ∧ pc ≠ .crashed) :
    Ok { s.moveTo i t pc with ctrs := ctrs, mu := mu } := by
  refine ⟨forall_mem_set h.named named, h.injective, h.fresh, forall_mem_set h.allocated allocated,
    fun a lt => ?_, fun a lt => ?_, ?_, fun n a found => ?_, forall_mem_set h.sound sound⟩
  · have moves := countP_set_add (fun t : Thread ν => t.pc.waits a) at_i { t with pc := pc }
    have before := h.waiters a lt
    have after := waiters a lt
    change (ctrs a).waiters = ((s.threads.set i { t with pc := pc }).countP _ : ℕ)
    split_ifs at moves after <;> omega
  · have moves := countP_set_add (fun t : Thread ν => t.pc.holds a) at_i { t with pc := pc }
    have before := h.held a lt
    have after := held a lt
    change (s.threads.set i { t with pc := pc }).countP _ = if (ctrs a).mu then 1 else 0
    dsimp only at moves
    omega
  · have moves := countP_set_add (fun t : Thread ν => t.pc.inMu) at_i { t with pc := pc }
    have before := h.guarded
    change (s.threads.set i { t with pc := pc }).countP _ = if mu then 1 else 0
    dsimp only at moves
    omega
  · obtain ⟨t₀, mem, name, refers⟩ := h.used n a found
    have lt := (List.getElem?_eq_some_iff.1 at_i).1
    have stays : ∀ (j : ℕ) (t' : Thread ν), j ≠ i → s.threads[j]? = some t' →
        t' ∈ s.threads.set i { t with pc := pc } := fun j t' ne at_j =>
      List.mem_of_getElem? ((List.getElem?_set_ne ne.symm).trans at_j)
    obtain ⟨j, at_j⟩ := List.mem_iff_getElem?.1 mem
    by_cases same : j = i
    · subst same
      obtain rfl := Option.some.inj (at_j.symm.trans at_i)
      rcases used a refers with again | ⟨k, t', ne, at_k, name', refers'⟩
      · exact ⟨_, List.mem_of_getElem? (List.getElem?_set_self lt), name, again⟩
      · exact ⟨t', stays k t' ne at_k, name'.trans name, refers'⟩
    · exact ⟨t₀, stays j t₀ same at_j, name, refers⟩

omit [DecidableEq ν] in
theorem call (h : Ok s) (name : ν) : Ok { s with threads := s.threads ++ [⟨name, .locking⟩] } where
  named := forall_mem_snoc h.named fun a refers => by cases refers
  injective := h.injective
  fresh := h.fresh
  allocated := forall_mem_snoc h.allocated fun a holds => by cases holds
  waiters a lt := by rw [h.waiters a lt, countP_snoc _ _ rfl]
  held a lt := by rw [← h.held a lt, countP_snoc _ _ rfl]
  guarded := by rw [← h.guarded, countP_snoc _ _ rfl]
  used n a found := by
    obtain ⟨t, mem, named⟩ := h.used n a found
    exact ⟨t, List.mem_append_left _ mem, named⟩
  sound := forall_mem_snoc h.sound ⟨Pc.noConfusion, Pc.noConfusion⟩

omit [DecidableEq ν] in
theorem lt_of_refers (h : Ok s) (mem : t ∈ s.threads) {a : ℕ} (refers : t.pc.refers a = true) :
    a < s.next :=
  h.fresh t.name a (h.named t mem a refers)

omit [DecidableEq ν] in
/-- Only one caller has the lock at an address. -/
theorem eq_of_holds (h : Ok s) {j : ℕ} {t' : Thread ν} {a : ℕ} (at_i : s.threads[i]? = some t)
    (at_j : s.threads[j]? = some t') (holds : t.pc.holds a = true)
    (holds' : t'.pc.holds a = true) : i = j := by
  refine eq_of_countP_le_one (fun t : Thread ν => t.pc.holds a) ?_ at_i at_j holds holds'
  rw [h.held a (h.allocated t (List.mem_of_getElem? at_i) a holds)]
  split_ifs <;> omega

/-- The first caller with the name makes the lock. -/
theorem create (h : Ok s) (at_i : s.threads[i]? = some t) (pc : t.pc = .locking)
    (missing : s.locks t.name = none) :
    Ok { (s.setCtr s.next ⟨false, 0 + 1⟩).moveTo i t (.waiting s.next) with
      locks := Function.update s.locks t.name (some s.next)
      next := s.next + 1 } := by
  have lt := (List.getElem?_eq_some_iff.1 at_i).1
  have older : ∀ n, s.locks n ≠ some s.next := fun n found =>
    absurd (h.fresh n _ found) (Nat.lt_irrefl _)
  have other : ∀ n a, s.locks n = some a → n ≠ t.name := by
    rintro n a found rfl
    rw [missing] at found
    cases found
  refine ⟨forall_mem_set (fun t' mem a refers => ?_) fun a refers => ?_, fun m n a hm hn => ?_,
    fun n a found => ?_, forall_mem_set (fun t' mem a holds => ?_) (fun a holds => ?_),
    fun a le => ?_, fun a le => ?_, ?_, fun n a found => ?_,
    forall_mem_set h.sound ⟨Pc.noConfusion, Pc.noConfusion⟩⟩
  · have found := h.named t' mem a refers
    exact (Function.update_of_ne (other _ a found) ..).trans found
  · obtain rfl := beq_iff_eq.1 refers
    exact Function.update_self ..
  · change Function.update s.locks t.name (some s.next) m = some a at hm
    change Function.update s.locks t.name (some s.next) n = some a at hn
    by_cases own : m = t.name <;> by_cases own' : n = t.name
    · exact own.trans own'.symm
    · rw [own, Function.update_self] at hm
      rw [Function.update_of_ne own', ← hm] at hn
      exact absurd hn (older n)
    · rw [own', Function.update_self] at hn
      rw [Function.update_of_ne own, ← hn] at hm
      exact absurd hm (older m)
    · rw [Function.update_of_ne own] at hm
      rw [Function.update_of_ne own'] at hn
      exact h.injective m n a hm hn
  · change Function.update s.locks t.name (some s.next) n = some a at found
    by_cases own : n = t.name
    · rw [own, Function.update_self] at found
      cases found
      exact Nat.lt_succ_self _
    · rw [Function.update_of_ne own] at found
      exact Nat.lt_succ_of_lt (h.fresh n a found)
  · exact Nat.lt_succ_of_lt (h.allocated t' mem a holds)
  · cases holds
  · change (Function.update s.ctrs s.next ⟨false, 0 + 1⟩ a).waiters =
      ((s.threads.set i { t with pc := .waiting s.next }).countP _ : ℕ)
    by_cases new : a = s.next
    · subst new
      have nobody : (s.threads.countP fun t => t.pc.waits s.next) = 0 := by
        refine List.countP_eq_zero.2 fun t' mem waits => ?_
        exact Nat.lt_irrefl _ (h.lt_of_refers mem (Pc.refers_of_waits waits))
      have one : ((s.threads.set i { t with pc := .waiting s.next }).countP fun t =>
          t.pc.waits s.next) = _ + 1 :=
        countP_set_enter _ at_i (by rw [pc]; rfl) (beq_self_eq_true s.next)
      rw [Function.update_self, one, nobody]
      rfl
    · rw [Function.update_of_ne new, countP_set_same _ at_i]
      · exact h.waiters a (Nat.lt_of_le_of_ne (Nat.le_of_lt_succ le) new)
      · rw [pc]
        exact beq_eq_false_iff_ne.2 (Ne.symm new)
  · change (s.threads.set i { t with pc := .waiting s.next }).countP _ =
      if (Function.update s.ctrs s.next ⟨false, 0 + 1⟩ a).mu then 1 else 0
    rw [countP_set_same _ at_i (by rw [pc]; rfl)]
    by_cases new : a = s.next
    · subst new
      rw [Function.update_self]
      refine List.countP_eq_zero.2 fun t' mem holds => ?_
      exact Nat.lt_irrefl _ (h.allocated t' mem _ holds)
    · rw [Function.update_of_ne new]
      exact h.held a (Nat.lt_of_le_of_ne (Nat.le_of_lt_succ le) new)
  · change (s.threads.set i { t with pc := .waiting s.next }).countP _ = _
    rw [countP_set_same _ at_i (by rw [pc]; rfl)]
    exact h.guarded
  · change Function.update s.locks t.name (some s.next) n = some a at found
    by_cases own : n = t.name
    · rw [own, Function.update_self] at found
      cases found
      exact ⟨_, List.mem_of_getElem? (List.getElem?_set_self lt), own.symm, beq_self_eq_true _⟩
    · rw [Function.update_of_ne own] at found
      refine exists_mem_set at_i (fun both => ?_) (h.used n a found)
      rw [pc] at both
      cases both.2

/-- `Unlock` finds nobody waiting and removes the lock from the map. -/
theorem delete (h : Ok s) {a : ℕ} (at_i : s.threads[i]? = some t) (pc : t.pc = .unlocking a)
    (unused : (s.ctrs a).waiters = 0) :
    Ok { s.moveTo i t (.counted a) with locks := Function.update s.locks t.name none } := by
  have mem := List.mem_of_getElem? at_i
  have refers : t.pc.refers a = true := by
    rw [pc]
    exact beq_self_eq_true a
  have holds : t.pc.holds a = true := by
    rw [pc]
    exact beq_self_eq_true a
  have own := h.named t mem a refers
  have lt := h.fresh _ _ own
  -- nobody else refers to the lock: those who wait are counted, the others hold it
  have alone : ∀ (j : ℕ) (t' : Thread ν), s.threads[j]? = some t' → j ≠ i →
      t'.pc.refers a ≠ true := by
    intro j t' at_j ne refers'
    have nobody : (s.threads.countP fun t => t.pc.waits a) = 0 := by
      have := h.waiters a lt
      omega
    have waits : t'.pc.waits a ≠ true := List.countP_eq_zero.1 nobody t' (List.mem_of_getElem? at_j)
    have holds' : t'.pc.holds a ≠ true := fun both => ne (h.eq_of_holds at_j at_i both holds)
    cases pc' : t'.pc <;> rw [pc'] at refers' waits holds' <;>
      first
      | exact waits refers'
      | exact holds' refers'
  have other : ∀ n b, s.locks n = some b → n ≠ t.name →
      ∃ (j : ℕ) (t' : Thread ν), j ≠ i ∧ s.threads[j]? = some t' ∧ t'.name = n ∧
        t'.pc.refers b = true := by
    intro n b found ne
    obtain ⟨t', mem', name, refers'⟩ := h.used n b found
    obtain ⟨j, at_j⟩ := List.mem_iff_getElem?.1 mem'
    refine ⟨j, t', ?_, at_j, name, refers'⟩
    rintro rfl
    obtain rfl := Option.some.inj (at_j.symm.trans at_i)
    exact ne name.symm
  refine ⟨fun t' mem' b refers' => ?_, fun m n b hm hn => ?_, fun n b found => ?_,
    forall_mem_set h.allocated fun b holds' => ?_, fun b lt' => ?_, fun b lt' => ?_, ?_,
    fun n b found => ?_, forall_mem_set h.sound ⟨Pc.noConfusion, Pc.noConfusion⟩⟩
  · obtain ⟨j, at_j⟩ := List.mem_iff_getElem?.1 mem'
    rcases getElem?_set_cases at_j with ⟨-, rfl⟩ | ⟨ne, old⟩
    · cases refers'
    · have found := h.named t' (List.mem_of_getElem? old) b refers'
      refine (Function.update_of_ne ?_ ..).trans found
      intro same
      rw [same, own] at found
      cases found
      exact alone j t' old ne refers'
  · exact h.injective m n b (update_none_eq_some hm).2 (update_none_eq_some hn).2
  · exact h.fresh n b (update_none_eq_some found).2
  · refine h.allocated t mem b ?_
    rw [pc]
    exact holds'
  · exact (h.waiters b lt').trans
      (congrArg _ (countP_set_same _ at_i (by rw [pc]; rfl)).symm)
  · exact (countP_set_same _ at_i (by rw [pc]; rfl)).trans (h.held b lt')
  · exact (countP_set_same _ at_i (by rw [pc]; rfl)).trans h.guarded
  · obtain ⟨ne, found⟩ := update_none_eq_some found
    obtain ⟨j, t', ne', at_j, name, refers'⟩ := other n b found ne
    exact ⟨t', List.mem_of_getElem? ((List.getElem?_set_ne ne'.symm).trans at_j), name, refers'⟩

omit [DecidableEq ν] in
/-- A caller moves with the `lockCtr` at `a`. -/
theorem moveCtr (h : Ok s) (at_i : s.threads[i]? = some t) (pc : Pc) (a : ℕ) (c : LockCtr)
    (named : ∀ b, pc.refers b = true → s.locks t.name = some b)
    (allocated : ∀ b, pc.holds b = true → b < s.next)
    (waiters : c.waiters + (if t.pc.waits a then 1 else 0) =
      (s.ctrs a).waiters + if pc.waits a then 1 else 0)
    (held : (if c.mu then 1 else 0) + (if t.pc.holds a then 1 else 0) =
      (if (s.ctrs a).mu then 1 else 0) + if pc.holds a then 1 else 0)
    (other : ∀ b ≠ a, pc.waits b = t.pc.waits b ∧ pc.holds b = t.pc.holds b)
    (inMu : pc.inMu = t.pc.inMu) (refers : ∀ b, t.pc.refers b = true → pc.refers b = true)
    (sound : pc ≠ .noSuchLock ∧ pc ≠ .crashed) : Ok ((s.setCtr a c).moveTo i t pc) := by
  refine h.move at_i pc (Function.update s.ctrs a c) s.mu named allocated (fun b _ => ?_)
    (fun b _ => ?_) (by rw [inMu]) (fun b before => .inl (refers b before)) sound
  · by_cases same : b = a
    · rw [same, Function.update_self]
      exact waiters
    · rw [Function.update_of_ne same, (other b same).1]
  · by_cases same : b = a
    · rw [same, Function.update_self]
      exact held
    · rw [Function.update_of_ne same, (other b same).2]

theorem step (h : Ok s) {act : Action ν} (steps : Steps s act u) : Ok u := by
  cases steps with
  | call => exact h.call _
  | @enter i t a at_i pc _ found =>
    refine h.moveCtr at_i (.waiting a) a _ (fun b refers => ?_) (fun b holds => ?_) ?_ ?_
      (fun b ne => ?_) ?_ (fun b refers => ?_) ⟨Pc.noConfusion, Pc.noConfusion⟩
    · rwa [← beq_iff_eq.1 refers]
    · cases holds
    · simp [pc, Pc.waits]
    · simp [pc, Pc.holds]
    · simp [pc, Pc.waits, Pc.holds, ne.symm]
    · rw [pc]
      rfl
    · rw [pc] at refers
      cases refers
  | create at_i pc _ missing => exact h.create at_i pc missing
  | @acquire i t a at_i pc free =>
    have refers : t.pc.refers a = true := by simp [pc, Pc.refers]
    have mem := List.mem_of_getElem? at_i
    refine h.moveCtr at_i (.locked a) a _ (fun b refers' => ?_) (fun b holds => ?_) ?_ ?_
      (fun b ne => ?_) ?_ (fun b refers' => ?_) ⟨Pc.noConfusion, Pc.noConfusion⟩
    · rw [← beq_iff_eq.1 refers']
      exact h.named t mem a refers
    · rw [← beq_iff_eq.1 holds]
      exact h.lt_of_refers mem refers
    · simp [pc, Pc.waits]
    · simp [pc, Pc.holds, free]
    · simp [pc, Pc.waits, Pc.holds, ne.symm]
    · rw [pc]
      rfl
    · rwa [pc] at refers'
  | @dec i t a at_i pc =>
    have mem := List.mem_of_getElem? at_i
    refine h.moveCtr at_i (.inside a) a _ (fun b refers => ?_) (fun b holds => ?_) ?_ ?_
      (fun b ne => ?_) ?_ (fun b refers => ?_) ⟨Pc.noConfusion, Pc.noConfusion⟩
    · exact h.named t mem b (by rwa [pc])
    · exact h.allocated t mem b (by rwa [pc])
    · simp [pc, Pc.waits]
    · simp [pc, Pc.holds]
    · simp [pc, Pc.waits, Pc.holds, ne.symm]
    · rw [pc]
      rfl
    · rwa [pc] at refers
  | @missing i t a at_i pc missing =>
    have found := h.named t (List.mem_of_getElem? at_i) a (by simp [pc, Pc.refers])
    rw [missing] at found
    cases found
  | @unlock i t a a' at_i pc free found =>
    have mem := List.mem_of_getElem? at_i
    obtain rfl : a = a' := by
      have own := h.named t mem a (by simp [pc, Pc.refers])
      exact Option.some.inj (own.symm.trans found)
    refine h.move at_i (.unlocking a) s.ctrs true (fun b refers => ?_) (fun b holds => ?_)
      (fun b _ => ?_) (fun b _ => ?_) ?_ (fun b refers => .inl ?_)
      ⟨Pc.noConfusion, Pc.noConfusion⟩
    · exact h.named t mem b (by rwa [pc])
    · exact h.allocated t mem b (by rwa [pc])
    · rw [pc]
      rfl
    · rw [pc]
      rfl
    · simp [pc, Pc.inMu, free]
    · rwa [pc] at refers
  | delete at_i pc unused => exact h.delete at_i pc unused
  | @keep i t a at_i pc used =>
    have mem := List.mem_of_getElem? at_i
    have refers : t.pc.refers a = true := by simp [pc, Pc.refers]
    have own := h.named t mem a refers
    refine h.move at_i (.counted a) s.ctrs s.mu (fun b refers => ?_) (fun b holds => ?_)
      (fun b _ => ?_) (fun b _ => ?_) ?_ (fun b refers' => .inr ?_)
      ⟨Pc.noConfusion, Pc.noConfusion⟩
    · cases refers
    · exact h.allocated t mem b (by rwa [pc])
    · rw [pc]
      rfl
    · rw [pc]
      rfl
    · rw [pc]
      rfl
    · -- one of those who wait
      rw [pc] at refers'
      obtain rfl : a = b := beq_iff_eq.1 refers'
      have some_waiter : 0 < s.threads.countP fun t => t.pc.waits a := by
        have := h.waiters a (h.fresh _ _ own)
        omega
      obtain ⟨t', mem', waits⟩ := List.countP_pos_iff.1 some_waiter
      obtain ⟨j, at_j⟩ := List.mem_iff_getElem?.1 mem'
      have refers'' := Pc.refers_of_waits waits
      refine ⟨j, t', ?_, at_j, h.injective _ _ a (h.named t' mem' a refers'') own, refers''⟩
      rintro rfl
      obtain rfl := Option.some.inj (at_j.symm.trans at_i)
      rw [pc] at waits
      cases waits
  | @release i t a at_i pc held =>
    refine h.moveCtr at_i .released a _ (fun b refers => ?_) (fun b holds => ?_) ?_ ?_
      (fun b ne => ?_) ?_ (fun b refers => ?_) ⟨Pc.noConfusion, Pc.noConfusion⟩
    · cases refers
    · cases holds
    · simp [pc, Pc.waits]
    · simp [pc, Pc.holds, held]
    · simp [pc, Pc.waits, Pc.holds, ne.symm]
    · rw [pc]
      rfl
    · rw [pc] at refers
      cases refers
  | @crash i t a at_i pc free =>
    have mem := List.mem_of_getElem? at_i
    have holds : t.pc.holds a = true := by simp [pc, Pc.holds]
    have held := h.held a (h.allocated t mem a holds)
    rw [free, if_neg Bool.false_ne_true] at held
    exact absurd holds (List.countP_eq_zero.1 held t mem)
  | @exit i t at_i pc =>
    refine h.move at_i .done s.ctrs false (fun b refers => ?_) (fun b holds => ?_)
      (fun b _ => ?_) (fun b _ => ?_) ?_ (fun b refers => .inl ?_)
      ⟨Pc.noConfusion, Pc.noConfusion⟩
    · cases refers
    · cases holds
    · rw [pc]
      rfl
    · rw [pc]
      rfl
    · have inside : 0 < s.threads.countP fun t => t.pc.inMu :=
        List.countP_pos_iff.2 ⟨t, List.mem_of_getElem? at_i, by rw [pc]; rfl⟩
      have guarded := h.guarded
      rw [pc]
      simp only [Pc.inMu, if_true, Bool.false_eq_true, if_false]
      split_ifs at guarded ⊢ <;> omega
    · rw [pc] at refers
      cases refers

end Ok

omit [DecidableEq ν] in
theorem ok_start : Ok (State.start : State ν) where
  named t mem := by cases mem
  injective m n a found := by cases found
  fresh n a found := by cases found
  allocated t mem := by cases mem
  waiters a lt := by cases lt
  held a lt := by cases lt
  guarded := rfl
  used n a found := by cases found
  sound t mem := by cases mem

omit [DecidableEq ν] in
theorem Ok.eq_of_inside {s : State ν} (h : Ok s) {i j a a' : ℕ} {t t' : Thread ν}
    (at_i : s.threads[i]? = some t) (at_j : s.threads[j]? = some t') (inside : t.pc = .inside a)
    (inside' : t'.pc = .inside a') (same : t.name = t'.name) : i = j := by
  have here := h.named t (List.mem_of_getElem? at_i) a (by simp [inside, Pc.refers])
  have here' := h.named t' (List.mem_of_getElem? at_j) a' (by simp [inside', Pc.refers])
  rw [same] at here
  obtain rfl := Option.some.inj (here.symm.trans here')
  exact h.eq_of_holds (a := a) at_i at_j (by simp [inside, Pc.holds]) (by simp [inside', Pc.holds])

omit [DecidableEq ν] in
/-- `waiters` is an `int32` in the source, and does not wrap as long as fewer than `2^31` callers
are counted. -/
theorem Ok.waiters_int32 {s : State ν} (h : Ok s) {a : ℕ} (used : a < s.next)
    (few : (s.threads.countP fun t => t.pc.waits a) < 2147483648) :
    -2147483648 ≤ (s.ctrs a).waiters ∧ (s.ctrs a).waiters < 2147483648 := by
  rw [h.waiters a used]
  omega

/-- However the callers interleave: two that are inside at the same time have different names, no
`Unlock` misses its lock or unlocks a mutex that is not locked, and the map has only the names of
callers that are between `Lock` and `Unlock`. -/
theorem locker_excludes {as : List (Action ν)} {s : State ν}
    (r : Run Locker.step anyAction State.start as s) :
    (∀ (i j : ℕ) (t t' : Thread ν) a a', s.threads[i]? = some t → s.threads[j]? = some t' →
      t.pc = .inside a → t'.pc = .inside a' → t.name = t'.name → i = j) ∧
    (∀ t ∈ s.threads, t.pc ≠ .noSuchLock ∧ t.pc ≠ .crashed) ∧
    ∀ n, s.locks n ≠ none → ∃ t ∈ s.threads, t.name = n ∧ t.pc ≠ .locking ∧ t.pc ≠ .done := by
  have ok : Ok s := r.invariant Ok ok_start fun t a u inv _ enabled =>
    inv.step (steps_of_step enabled)
  refine ⟨fun i j t t' a a' at_i at_j inside inside' same =>
    ok.eq_of_inside at_i at_j inside inside' same, ok.sound, fun n used => ?_⟩
  obtain ⟨a, found⟩ := Option.ne_none_iff_exists'.1 used
  obtain ⟨t, mem, name, refers⟩ := ok.used n a found
  refine ⟨t, mem, name, ?_, ?_⟩ <;>
  · intro pc
    rw [pc] at refers
    cases refers

/-- Two callers with one name, and a third one that comes after the second has left. -/
theorem locker_excludes_three : ∃ s : State ℕ,
    s.threads = [⟨5, .done⟩, ⟨5, .done⟩, ⟨5, .inside 1⟩] ∧ s.locks 5 = some 1 ∧
      ∀ t ∈ s.threads, t.pc ≠ .noSuchLock ∧ t.pc ≠ .crashed := by
  obtain ⟨s, r, threads, map⟩ := Run.exists_of_exec step anyAction (State.start : State ℕ)
    [.call 5, .call 5, .enter 0, .acquire 0, .enter 1, .dec 0, .unlock 0, .count 0, .release 0,
      .acquire 1, .exit 0, .dec 1, .unlock 1, .count 1, .call 5, .release 1, .exit 1, .enter 2,
      .acquire 2, .dec 2]
    (fun s => s.threads = [⟨5, .done⟩, ⟨5, .done⟩, ⟨5, .inside 1⟩] ∧ s.locks 5 = some 1) (by decide)
  exact ⟨s, threads, map, (locker_excludes r).2.1⟩

end OlricStack.Dmap.Locker
