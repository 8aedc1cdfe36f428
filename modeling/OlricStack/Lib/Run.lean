import Mathlib.Data.List.Basic
import Mathlib.Tactic.Common

/-!
# Runs of a labelled step function

A system is a partial step function `step : σ → α → Option σ`: the action `a` is enabled in `s` when
`step s a` is defined.  `Run step ok s as t` says that the actions `as` lead from `s` to `t`, every
one of them enabled and meeting the condition `ok` in the state it is taken in.  The file has the
invariant rule, the rule that compares two conditions along the same run, and an evaluator `exec`
by which concrete runs are checked.
-/

namespace Transition

variable {σ α : Type*} {step : σ → α → Option σ} {ok ok' : σ → α → Prop}

/-- The actions `as` lead from `s` to `t`, each taken in a state where `ok` allows it. -/
inductive Run (step : σ → α → Option σ) (ok : σ → α → Prop) (s : σ) : List α → σ → Prop
  | nil : Run step ok s [] s
  | snoc {l : List α} {t u : σ} (a : α) (before : Run step ok s l t) (allowed : ok t a)
      (enabled : step t a = some u) : Run step ok s (l ++ [a]) u

/-- Every action is allowed. -/
def anyAction : σ → α → Prop := fun _ _ => True

/-- What holds at the start and is kept by every allowed step holds after every run. -/
theorem Run.invariant {s t : σ} {as : List α} (r : Run step ok s as t) (Inv : σ → Prop)
    (start : Inv s) (keep : ∀ t a u, Inv t → ok t a → step t a = some u → Inv u) : Inv t := by
  induction r with
  | nil => exact start
  | snoc a _ allowed enabled ih => exact keep _ a _ ih allowed enabled

/-- A weaker condition admits more runs. -/
theorem Run.mono {s t : σ} {as : List α} (r : Run step ok s as t)
    (weaker : ∀ t a, ok t a → ok' t a) : Run step ok' s as t := by
  induction r with
  | nil => exact .nil
  | snoc a _ allowed enabled ih => exact .snoc a ih (weaker _ _ allowed) enabled

/-- A run is admitted by every condition that allows its actions. -/
theorem Run.of_actions {s t : σ} {as : List α} (r : Run step ok s as t)
    (allowed : ∀ t, ∀ a ∈ as, ok' t a) : Run step ok' s as t := by
  induction r with
  | nil => exact .nil
  | snoc a _ _ enabled ih =>
    exact .snoc a (ih fun t b mem => allowed t b (List.mem_append_left _ mem))
      (allowed _ a (List.mem_append_right _ (List.mem_singleton_self a))) enabled

/-- A map of states that every allowed step commutes with takes runs to runs. -/
theorem Run.map {s t : σ} {as : List α} (r : Run step ok s as t) (f : σ → σ)
    (commutes : ∀ t a u, ok t a → step t a = some u → ok (f t) a ∧ step (f t) a = some (f u)) :
    Run step ok (f s) as (f t) := by
  induction r with
  | nil => exact .nil
  | snoc a _ allowed enabled ih =>
    obtain ⟨allowed', enabled'⟩ := commutes _ a _ allowed enabled
    exact .snoc a ih allowed' enabled'

/-- Two conditions that agree in every state where an invariant of the first holds admit the same
runs. -/
theorem Run.congr (Inv : σ → Prop) {s t : σ} {as : List α} (start : Inv s)
    (keep : ∀ t a u, Inv t → ok t a → step t a = some u → Inv u)
    (agree : ∀ t a, Inv t → (step t a).isSome → (ok t a ↔ ok' t a)) :
    Run step ok s as t ↔ Run step ok' s as t := by
  constructor
  · intro r
    induction r with
    | nil => exact .nil
    | snoc a before allowed enabled ih =>
      have hi := before.invariant Inv start keep
      exact .snoc a ih ((agree _ a hi (by rw [enabled]; rfl)).1 allowed) enabled
  · intro r
    induction r with
    | nil => exact .nil
    | snoc a before allowed enabled ih =>
      have hi := ih.invariant Inv start keep
      exact .snoc a ih ((agree _ a hi (by rw [enabled]; rfl)).2 allowed) enabled

theorem Run.cons {s t u : σ} {as : List α} (a : α) (allowed : ok s a) (enabled : step s a = some t)
    (rest : Run step ok t as u) : Run step ok s (a :: as) u := by
  induction rest with
  | nil => exact .snoc (l := []) a .nil allowed enabled
  | snoc b _ allowed' enabled' ih => exact .snoc (l := a :: _) b ih allowed' enabled'

theorem Run.append {s t u : σ} {as bs : List α} (r : Run step ok s as t)
    (r' : Run step ok t bs u) : Run step ok s (as ++ bs) u := by
  induction r' with
  | nil => rwa [List.append_nil]
  | snoc b _ allowed enabled ih =>
    rw [← List.append_assoc]
    exact .snoc b ih allowed enabled

/-- Evaluate a list of actions, stopping at the first one that is not enabled or not allowed. -/
def exec (step : σ → α → Option σ) (ok : σ → α → Prop) [∀ s a, Decidable (ok s a)] :
    σ → List α → Option σ
  | s, [] => some s
  | s, a :: as => if ok s a then (step s a).bind fun t => exec step ok t as else none

theorem Run.of_exec [∀ s a, Decidable (ok s a)] {s t : σ} {as : List α}
    (h : exec step ok s as = some t) : Run step ok s as t := by
  induction as generalizing s with
  | nil =>
    cases h
    exact .nil
  | cons a as ih =>
    simp only [exec] at h
    split_ifs at h with allowed
    obtain ⟨u, enabled, rest⟩ := Option.bind_eq_some_iff.1 h
    exact .cons a allowed enabled (ih rest)

theorem exec_append [∀ s a, Decidable (ok s a)] (s : σ) (as bs : List α) :
    exec step ok s (as ++ bs) = (exec step ok s as).bind fun t => exec step ok t bs := by
  induction as generalizing s with
  | nil => rfl
  | cons a as ih =>
    simp only [List.cons_append, exec]
    split_ifs
    · simp only [ih, Option.bind_assoc]
    · rfl

/-- Evaluation finds the end of every run. -/
theorem Run.exec_eq [∀ s a, Decidable (ok s a)] {s t : σ} {as : List α} (r : Run step ok s as t) :
    exec step ok s as = some t := by
  induction r with
  | nil => rfl
  | snoc a _ allowed enabled ih =>
    rw [exec_append, ih, Option.bind_some]
    simp only [exec, if_pos allowed, enabled, Option.bind_some]

/-- A run with a given end, from its evaluation. -/
theorem Run.exists_of_exec (step : σ → α → Option σ) (ok : σ → α → Prop)
    [∀ s a, Decidable (ok s a)] (s : σ) (as : List α) (P : σ → Prop) [DecidablePred P]
    (h : (exec step ok s as).any (fun t => P t) = true) : ∃ t, Run step ok s as t ∧ P t := by
  obtain ⟨t, evaluated, holds⟩ := (Option.any_eq_true _ _).1 h
  exact ⟨t, .of_exec evaluated, of_decide_eq_true holds⟩

/-! ## Components -/

/-- A fact about every component of a system, when one of them has moved. -/
theorem forall_mem_set {γ : Type*} {P : γ → Prop} {l : List γ} {i : ℕ} {moved : γ}
    (others : ∀ c ∈ l, P c) (this : P moved) : ∀ c ∈ l.set i moved, P c := by
  intro c h
  rcases List.mem_or_eq_of_mem_set h with h | rfl
  · exact others c h
  · exact this

/-- A fact about every component of a system, when one has been added. -/
theorem forall_mem_snoc {γ : Type*} {P : γ → Prop} {l : List γ} {added : γ}
    (others : ∀ c ∈ l, P c) (this : P added) : ∀ c ∈ l ++ [added], P c := by
  intro c h
  rcases List.mem_append.1 h with h | h
  · exact others c h
  · rw [List.mem_singleton.1 h]
    exact this

/-- What holds for some component does so when one of them has moved and kept it. -/
theorem exists_mem_set {γ : Type*} {P : γ → Prop} {l : List γ} {i : ℕ} {c moved : γ}
    (found : l[i]? = some c) (kept : P c → P moved) (h : ∃ d ∈ l, P d) :
    ∃ d ∈ l.set i moved, P d := by
  obtain ⟨d, hd, holds⟩ := h
  obtain ⟨j, hj⟩ := List.mem_iff_getElem?.1 hd
  by_cases same : j = i
  · subst same
    obtain rfl := Option.some.inj (hj.symm.trans found)
    have lt := (List.getElem?_eq_some_iff.1 found).1
    exact ⟨moved, List.mem_iff_getElem?.2 ⟨j, List.getElem?_set_self lt⟩, kept holds⟩
  · exact ⟨d, List.mem_iff_getElem?.2 ⟨j, (List.getElem?_set_ne (Ne.symm same)).trans hj⟩, holds⟩

/-- What stands where, when one component has moved. -/
theorem getElem?_set_cases {γ : Type*} {l : List γ} {i j : ℕ} {moved c : γ}
    (h : (l.set i moved)[j]? = some c) : j = i ∧ c = moved ∨ j ≠ i ∧ l[j]? = some c := by
  by_cases same : j = i
  · subst same
    have lt : j < l.length := by
      rw [← List.length_set (a := moved) (i := j)]
      exact (List.getElem?_eq_some_iff.1 h).1
    rw [List.getElem?_set_self lt] at h
    exact .inl ⟨rfl, (Option.some.inj h).symm⟩
  · rw [List.getElem?_set_ne (Ne.symm same)] at h
    exact .inr ⟨same, h⟩

/-- A component replaced by one with the same image leaves the images as they are. -/
theorem map_set_of_getElem? {γ δ : Type*} {f : γ → δ} {l : List γ} {i : ℕ} {c moved : γ}
    (h : l[i]? = some c) (same : f moved = f c) : (l.set i moved).map f = l.map f := by
  obtain ⟨lt, rfl⟩ := List.getElem?_eq_some_iff.1 h
  rw [List.map_set, same, ← List.getElem_map f (h := by simpa using lt), List.set_getElem_self]

/-- What stands where, when one component has been added. -/
theorem getElem?_snoc_cases {γ : Type*} {l : List γ} {j : ℕ} {added c : γ}
    (h : (l ++ [added])[j]? = some c) : c = added ∨ l[j]? = some c := by
  rw [List.getElem?_append] at h
  split_ifs at h
  · exact .inr h
  · exact .inl (List.mem_singleton.1 (List.mem_of_getElem? h))

/-- An index into a list that has grown by one is an old index or the new one. -/
theorem getElem?_snoc_split {γ : Type*} {l : List γ} {j : ℕ} {added c : γ}
    (h : (l ++ [added])[j]? = some c) : j = l.length ∧ c = added ∨ l[j]? = some c := by
  have lt := (List.getElem?_eq_some_iff.1 h).1
  rw [List.length_append, List.length_singleton] at lt
  rw [List.getElem?_append] at h
  split_ifs at h with old
  · exact .inr h
  · exact .inl ⟨by omega, List.mem_singleton.1 (List.mem_of_getElem? h)⟩

/-- A place in a list that has grown by one is an old place or the new one. -/
theorem snoc_eq_split_cases {γ : Type*} {l before after : List γ} {added c : γ}
    (h : l ++ [added] = before ++ c :: after) :
    (∃ after', l = before ++ c :: after') ∨ before = l ∧ c = added := by
  rcases List.eq_nil_or_concat after with rfl | ⟨after', last, rfl⟩
  · obtain ⟨rfl, same⟩ := List.append_inj' h rfl
    exact .inr ⟨rfl, (List.singleton_inj.1 same).symm⟩
  · rw [List.concat_eq_append, ← List.cons_append, ← List.append_assoc] at h
    exact .inl ⟨after', (List.append_inj' h rfl).1⟩

instance : ∀ (s : σ) (a : α), Decidable (anyAction s a) := fun _ _ => .isTrue trivial

end Transition
