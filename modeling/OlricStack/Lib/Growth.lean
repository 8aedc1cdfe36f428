import Mathlib.Data.List.Basic
import Mathlib.Order.Basic
import Mathlib.Tactic.Common

/-!
# Sequences that grow at the end

`Grows P l l'` says that `l'` is `l` with elements behind it that satisfy `P`.  `Rising f p bound l`
says that `f` does not go down along the elements of `l` that satisfy `p`, and stays below a bound.
An element that is not below the bound can follow (`Rising.snoc`), and elements can be left out
anywhere (`Rising.sublist`).
-/

namespace Growth

variable {α β : Type*}

/-- `l'` is `l` followed by elements that satisfy `P`. -/
def Grows (P : α → Prop) (l l' : List α) : Prop := ∃ new, l' = l ++ new ∧ ∀ x ∈ new, P x

section

variable {P Q : α → Prop} {l l' l'' : List α}

theorem Grows.of_eq (same : l' = l) : Grows P l l' := ⟨[], by simp [same], by simp⟩

theorem Grows.mono (h : Grows P l l') (weaker : ∀ x, P x → Q x) : Grows Q l l' := by
  obtain ⟨new, same, all⟩ := h
  exact ⟨new, same, fun x member => weaker x (all x member)⟩

theorem Grows.trans (h : Grows P l l') (h' : Grows P l' l'') : Grows P l l'' := by
  obtain ⟨new, rfl, all⟩ := h
  obtain ⟨new', rfl, all'⟩ := h'
  refine ⟨new ++ new', List.append_assoc _ _ _, fun x member => ?_⟩
  exact (List.mem_append.1 member).elim (all x) (all' x)

theorem Grows.append_left (h : Grows P l l') (front : List α) :
    Grows P (front ++ l) (front ++ l') := by
  obtain ⟨new, rfl, all⟩ := h
  exact ⟨new, (List.append_assoc _ _ _).symm, all⟩

end

/-- Along the elements that satisfy `p`, `f` does not go down and stays below the bound. -/
structure Rising [LE β] (f : α → β) (p : α → Prop) (bound : β) (l : List α) : Prop where
  ordered : l.Pairwise fun x y => p x → p y → f x ≤ f y
  bounded : ∀ x ∈ l, p x → f x ≤ bound

section

variable [Preorder β] {f : α → β} {p : α → Prop} {bound bound' : β} {l l' : List α}

theorem rising_nil : Rising f p bound [] := ⟨.nil, by simp⟩

theorem Rising.mono (h : Rising f p bound l) (le : bound ≤ bound') : Rising f p bound' l :=
  ⟨h.ordered, fun x member hx => (h.bounded x member hx).trans le⟩

theorem Rising.sublist (h : Rising f p bound l) (sub : l'.Sublist l) : Rising f p bound l' :=
  ⟨h.ordered.sublist sub, fun x member => h.bounded x (sub.subset member)⟩

/-- The next element stands at the bound, or does not count. -/
theorem Rising.snoc (h : Rising f p bound l) {x : α} (top : p x → bound ≤ f x)
    (below : p x → f x ≤ bound) : Rising f p bound (l ++ [x]) := by
  refine ⟨List.pairwise_append.2 ⟨h.ordered, List.pairwise_singleton _ x, ?_⟩,
    fun y member hy => ?_⟩
  · intro y member z last hy hz
    obtain rfl := List.mem_singleton.1 last
    exact (h.bounded y member hy).trans (top hz)
  · rcases List.mem_append.1 member with old | last
    · exact h.bounded y old hy
    · obtain rfl := List.mem_singleton.1 last
      exact below hy

/-- Elements that do not count can follow. -/
theorem Rising.grow (h : Rising f p bound l) (grows : Grows (fun x => ¬ p x) l l') :
    Rising f p bound l' := by
  obtain ⟨new, rfl, all⟩ := grows
  refine ⟨List.pairwise_append.2 ⟨h.ordered, ?_, fun y _ z last _ hz => absurd hz (all z last)⟩,
    fun y member hy => ?_⟩
  · exact List.pairwise_iff_forall_sublist.2 fun sub hx =>
      absurd hx (all _ (sub.subset (.head _)))
  · exact (List.mem_append.1 member).elim (fun old => h.bounded y old hy)
      fun last => absurd hy (all y last)

/-- The elements behind one that counts are not below it. -/
theorem Rising.head_le {x : α} (h : Rising f p bound (x :: l)) (hx : p x) :
    ∀ y ∈ l, p y → f x ≤ f y :=
  fun y member => (List.pairwise_cons.1 h.ordered).1 y member hx

end

end Growth
