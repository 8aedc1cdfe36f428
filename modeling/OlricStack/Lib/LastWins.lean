import Mathlib.Order.Basic
import Mathlib.Order.Lattice
import Mathlib.Data.List.Basic
import Mathlib.Logic.Function.Basic
import Mathlib.Tactic.Common

/-!
# Registers that keep the greatest version

A register holds at most one value; offering it a value replaces the stored one exactly when the
version of the offer is strictly greater.  The content after any sequence of offers is a value of
greatest version among the initial content and the offers (`settle_spec`), so it does not depend on
order, grouping or repetition when equal versions mean equal values (`settle_congr`).  A table of
such registers behaves as its registers do, one by one (`settleTable_apply`).
-/

namespace LastWins

variable {α κ ι : Type*} [LinearOrder κ] (version : α → κ)

/-- The value kept of a stored value `r` and an offer `n`. -/
def newest (r n : α) : α := if version r < version n then n else r

/-- Offer `n` to a register. -/
def offer : Option α → α → Option α
  | none, n => some n
  | some r, n => some (newest version r n)

/-- Offer a sequence of values, in order. -/
def settle (r : Option α) (l : List α) : Option α := l.foldl (offer version) r

theorem version_newest (r n : α) : version (newest version r n) = max (version r) (version n) := by
  unfold newest
  split_ifs with h
  · exact (max_eq_right h.le).symm
  · exact (max_eq_left (not_lt.1 h)).symm

theorem newest_eq_or (r n : α) : newest version r n = r ∨ newest version r n = n := by
  unfold newest
  split_ifs
  · exact Or.inr rfl
  · exact Or.inl rfl

theorem settle_nil (r : Option α) : settle version r [] = r := rfl

theorem settle_cons (r : Option α) (n : α) (l : List α) :
    settle version r (n :: l) = settle version (offer version r n) l := rfl

theorem settle_append (r : Option α) (l l' : List α) :
    settle version r (l ++ l') = settle version (settle version r l) l' := by
  simp only [settle, List.foldl_append]

theorem offer_isSome (r : Option α) (n : α) : (offer version r n).isSome := by
  cases r <;> rfl

theorem settle_isSome {r : Option α} (h : r.isSome) (l : List α) : (settle version r l).isSome := by
  induction l generalizing r with
  | nil => exact h
  | cons n l ih => exact ih (offer_isSome version r n)

theorem settle_eq_none_iff (r : Option α) (l : List α) :
    settle version r l = none ↔ r = none ∧ l = [] := by
  constructor
  · intro h
    cases l with
    | nil => exact ⟨h, rfl⟩
    | cons n l =>
      have hs := settle_isSome version (offer_isSome version r n) l
      rw [settle_cons] at h
      rw [h] at hs
      cases hs
  · rintro ⟨rfl, rfl⟩
    rfl

/-- `c` is offered to, or initially in, the register. -/
def Candidate (r : Option α) (l : List α) (c : α) : Prop := r = some c ∨ c ∈ l

theorem candidate_cons (r : Option α) (n : α) (l : List α) (c : α) :
    Candidate (offer version r n) l c → Candidate r (n :: l) c := by
  rintro (h | h)
  · cases r with
    | none =>
      cases h
      exact Or.inr List.mem_cons_self
    | some r =>
      cases h
      rcases newest_eq_or version r n with e | e
      · exact Or.inl (by rw [e])
      · exact Or.inr (by rw [e]; exact List.mem_cons_self)
  · exact Or.inr (List.mem_cons_of_mem _ h)

/-- The final content is a candidate, and no candidate has a greater version. -/
theorem settle_spec {r : Option α} {l : List α} {m : α} (h : settle version r l = some m) :
    Candidate r l m ∧ ∀ c, Candidate r l c → version c ≤ version m := by
  induction l generalizing r with
  | nil =>
    refine ⟨Or.inl h, ?_⟩
    rintro c (hc | hc)
    · rw [settle_nil, hc] at h
      cases h
      exact le_rfl
    · cases hc
  | cons n l ih =>
    obtain ⟨hm, hle⟩ := ih h
    refine ⟨candidate_cons version r n l m hm, ?_⟩
    -- the register after the first offer is at least as new as both of its candidates
    have first : ∀ c, r = some c ∨ c = n → version c ≤ version m := by
      intro c hc
      obtain ⟨v, hv⟩ := Option.isSome_iff_exists.1 (offer_isSome version r n)
      refine le_trans ?_ (hle v (Or.inl hv))
      cases r with
      | none =>
        cases hv
        rcases hc with hc | rfl
        · cases hc
        · exact le_rfl
      | some r =>
        cases hv
        rw [version_newest version]
        rcases hc with hc | rfl
        · cases hc
          exact le_max_left _ _
        · exact le_max_right _ _
    rintro c (hc | hc)
    · exact first c (Or.inl hc)
    · rcases List.mem_cons.1 hc with rfl | hc
      · exact first c (Or.inr rfl)
      · exact hle c (Or.inr hc)

/-- The stored version never decreases. -/
theorem version_le_settle {r m : α} {l : List α} (h : settle version (some r) l = some m) :
    version r ≤ version m :=
  (settle_spec version h).2 r (Or.inl rfl)

/-- Registers with the same candidates end up equal when equal versions mean equal values. -/
theorem settle_congr {r : Option α} {l l' : List α} (same : ∀ c, c ∈ l ↔ c ∈ l')
    (functional : ∀ c c', Candidate r l c → Candidate r l c' → version c = version c' → c = c') :
    settle version r l = settle version r l' := by
  have candidates : ∀ c, Candidate r l' c ↔ Candidate r l c := fun c => by
    simp only [Candidate, same c]
  rcases h : settle version r l with _ | m
  · obtain ⟨rfl, rfl⟩ := (settle_eq_none_iff version r l).1 h
    refine ((settle_eq_none_iff version none l').2 ⟨rfl, ?_⟩).symm
    exact List.eq_nil_iff_forall_not_mem.2 fun c hc => List.not_mem_nil ((same c).2 hc)
  · rcases h' : settle version r l' with _ | m'
    · obtain ⟨rfl, rfl⟩ := (settle_eq_none_iff version r l').1 h'
      obtain ⟨hm | hm, -⟩ := settle_spec version h
      · cases hm
      · exact absurd ((same m).1 hm) List.not_mem_nil
    · obtain ⟨hm, hle⟩ := settle_spec version h
      obtain ⟨hm', hle'⟩ := settle_spec version h'
      have e := le_antisymm (hle' m ((candidates m).2 hm)) (hle m' ((candidates m').1 hm'))
      rw [functional m m' hm ((candidates m').1 hm') e]

/-! ## Tables of registers -/

variable [DecidableEq ι] (place : α → ι)

/-- Offer `n` to the register at its place. -/
def offerAt (t : ι → Option α) (n : α) : ι → Option α :=
  Function.update t (place n) (offer version (t (place n)) n)

/-- Offer a sequence of values to a table, in order. -/
def settleTable (t : ι → Option α) (l : List α) : ι → Option α := l.foldl (offerAt version place) t

/-- Each register of a table sees exactly the offers addressed to it. -/
theorem settleTable_apply (t : ι → Option α) (l : List α) (i : ι) :
    settleTable version place t l i = settle version (t i) (l.filter fun n => place n = i) := by
  induction l generalizing t with
  | nil => rfl
  | cons n l ih =>
    change settleTable version place (offerAt version place t n) l i = _
    rw [ih]
    by_cases h : place n = i
    · subst h
      simp only [offerAt, Function.update_self, List.filter_cons, decide_true, if_true, settle_cons]
    · simp only [offerAt, Function.update_of_ne (Ne.symm h), List.filter_cons, h, decide_false,
        Bool.false_eq_true, if_false]

end LastWins
