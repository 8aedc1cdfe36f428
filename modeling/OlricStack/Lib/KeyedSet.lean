import Mathlib.Data.List.Induction
import Mathlib.Data.List.Nodup
import Mathlib.Tactic.Common

/-!
# Sets of values with distinct keys

A finite map whose values know their own key: a list of values no two of which have the same key.
It can be looked up by key, extended, pruned and enumerated.
-/

/-- Values with pairwise distinct keys. -/
structure KeyedSet {α κ : Type*} (key : α → κ) where
  toList : List α
  nodup : (toList.map key).Nodup

namespace KeyedSet

variable {α κ : Type*} [DecidableEq κ] {key : α → κ}

/-- No elements. -/
def empty : KeyedSet key := ⟨[], List.nodup_nil⟩

/-- The value with key `k`. -/
def lookup (s : KeyedSet key) (k : κ) : Option α := s.toList.find? fun a => key a = k

/-- Keep the values that satisfy `p`. -/
def filter (s : KeyedSet key) (p : α → Bool) : KeyedSet key where
  toList := s.toList.filter p
  nodup := s.nodup.sublist (List.filter_sublist.map key)

/-- Remove the value with key `k`. -/
def erase (s : KeyedSet key) (k : κ) : KeyedSet key := s.filter fun a => key a ≠ k

/-- Add a value, in place of the one with the same key. -/
def insert (s : KeyedSet key) (a : α) : KeyedSet key where
  toList := (s.erase (key a)).toList ++ [a]
  nodup := by
    rw [List.map_append]
    refine List.nodup_append.2 ⟨(s.erase (key a)).nodup, by simp, ?_⟩
    intro k hk k' hk'
    obtain ⟨b, hb, rfl⟩ := List.mem_map.1 hk
    obtain rfl : k' = key a := by simpa using hk'
    simpa [erase, filter] using (List.mem_filter.1 hb).2

omit [DecidableEq κ] in
theorem map_filterMap_sublist {f : α → Option α} (keeps : ∀ a b, f a = some b → key b = key a)
    (l : List α) : ((l.filterMap f).map key).Sublist (l.map key) := by
  induction l with
  | nil => exact .slnil
  | cons a l ih =>
    cases hb : f a with
    | none =>
      rw [List.filterMap_cons_none hb]
      exact .cons _ ih
    | some b =>
      rw [List.filterMap_cons_some hb, List.map_cons, List.map_cons, keeps a b hb]
      exact .cons_cons _ ih

/-- Replace every value by one with the same key, or drop it. -/
def filterMap (s : KeyedSet key) (f : α → Option α) (keeps : ∀ a b, f a = some b → key b = key a) :
    KeyedSet key where
  toList := s.toList.filterMap f
  nodup := s.nodup.sublist (map_filterMap_sublist keeps s.toList)

omit [DecidableEq κ] in
theorem eq_of_mem_of_key_eq (s : KeyedSet key) {a b : α} (ha : a ∈ s.toList) (hb : b ∈ s.toList)
    (h : key a = key b) : a = b :=
  List.inj_on_of_nodup_map s.nodup ha hb h

theorem lookup_eq_some_iff (s : KeyedSet key) {k : κ} {a : α} :
    s.lookup k = some a ↔ a ∈ s.toList ∧ key a = k := by
  constructor
  · intro h
    exact ⟨List.mem_of_find?_eq_some h, by simpa using List.find?_some h⟩
  · rintro ⟨ha, rfl⟩
    have found : (s.lookup (key a)).isSome := List.find?_isSome.2 ⟨a, ha, by simp⟩
    obtain ⟨b, hb⟩ := Option.isSome_iff_exists.1 found
    have hkey : key b = key a := by simpa using List.find?_some hb
    rw [hb, s.eq_of_mem_of_key_eq (List.mem_of_find?_eq_some hb) ha hkey]

theorem lookup_eq_none_iff (s : KeyedSet key) {k : κ} :
    s.lookup k = none ↔ ∀ a ∈ s.toList, key a ≠ k := by
  simp [lookup]

theorem key_of_lookup (s : KeyedSet key) {k : κ} {a : α} (h : s.lookup k = some a) : key a = k :=
  (s.lookup_eq_some_iff.1 h).2

theorem lookup_of_mem (s : KeyedSet key) {a : α} (h : a ∈ s.toList) : s.lookup (key a) = some a :=
  s.lookup_eq_some_iff.2 ⟨h, rfl⟩

theorem mem_erase (s : KeyedSet key) {k : κ} {a : α} :
    a ∈ (s.erase k).toList ↔ a ∈ s.toList ∧ key a ≠ k := by
  simp [erase, filter]

theorem mem_insert (s : KeyedSet key) {a b : α} :
    b ∈ (s.insert a).toList ↔ b ∈ s.toList ∧ key b ≠ key a ∨ b = a := by
  rw [← mem_erase]
  simp [insert]

omit [DecidableEq κ] in
theorem filter_congr (s : KeyedSet key) {p q : α → Bool} (h : ∀ a ∈ s.toList, p a = q a) :
    s.filter p = s.filter q := by
  simp only [filter, List.filter_congr h]

omit [DecidableEq κ] in
theorem filter_eq_self (s : KeyedSet key) {p : α → Bool} (h : ∀ a ∈ s.toList, p a = true) :
    s.filter p = s := by
  simp only [filter, List.filter_eq_self.2 h]

theorem filter_key (s : KeyedSet key) (k : κ) :
    s.toList.filter (fun a => key a = k) = (s.lookup k).toList := by
  obtain ⟨l, nodup⟩ := s
  simp only [lookup]
  induction l with
  | nil => rfl
  | cons a l ih =>
    rw [List.map_cons, List.nodup_cons] at nodup
    by_cases same : key a = k
    · have others : l.filter (fun b => key b = k) = [] := by
        rw [List.filter_eq_nil_iff]
        intro b hb eq
        refine nodup.1 (List.mem_map.2 ⟨b, hb, ?_⟩)
        rw [same]
        exact of_decide_eq_true eq
      rw [List.filter_cons_of_pos (by simpa using same), others,
        List.find?_cons_of_pos (by simpa using same)]
      rfl
    · rw [List.filter_cons_of_neg (by simpa using same),
        List.find?_cons_of_neg (by simpa using same)]
      exact ih nodup.2

theorem lookup_filter (s : KeyedSet key) (p : α → Bool) (k : κ) :
    (s.filter p).lookup k = (s.lookup k).filter p := by
  ext a
  rw [lookup_eq_some_iff, Option.filter_eq_some_iff, lookup_eq_some_iff]
  simp only [filter, List.mem_filter]
  tauto

theorem lookup_filterMap (s : KeyedSet key) {f : α → Option α}
    (keeps : ∀ a b, f a = some b → key b = key a) (k : κ) :
    (s.filterMap f keeps).lookup k = (s.lookup k).bind f := by
  ext b
  rw [lookup_eq_some_iff, Option.bind_eq_some_iff]
  constructor
  · rintro ⟨hb, rfl⟩
    obtain ⟨a, ha, hab⟩ := List.mem_filterMap.1 hb
    exact ⟨a, s.lookup_eq_some_iff.2 ⟨ha, (keeps a b hab).symm⟩, hab⟩
  · rintro ⟨a, found, hab⟩
    obtain ⟨ha, rfl⟩ := s.lookup_eq_some_iff.1 found
    exact ⟨List.mem_filterMap.2 ⟨a, ha, hab⟩, keeps a b hab⟩

theorem lookup_erase_self (s : KeyedSet key) (k : κ) : (s.erase k).lookup k = none := by
  rw [lookup_eq_none_iff]
  intro a ha
  simpa [erase, filter] using (List.mem_filter.1 ha).2

theorem lookup_erase_of_ne (s : KeyedSet key) {k k' : κ} (h : k' ≠ k) :
    (s.erase k).lookup k' = s.lookup k' := by
  ext a
  rw [lookup_eq_some_iff, lookup_eq_some_iff]
  simp only [erase, filter, List.mem_filter, decide_eq_true_eq]
  constructor
  · exact fun ⟨⟨ha, _⟩, e⟩ => ⟨ha, e⟩
  · exact fun ⟨ha, e⟩ => ⟨⟨ha, e ▸ h⟩, e⟩

theorem lookup_insert_self (s : KeyedSet key) (a : α) : (s.insert a).lookup (key a) = some a :=
  lookup_of_mem _ (List.mem_append_right _ (by simp))

theorem lookup_insert_of_ne (s : KeyedSet key) {a : α} {k : κ} (h : k ≠ key a) :
    (s.insert a).lookup k = s.lookup k := by
  ext b
  rw [← s.lookup_erase_of_ne h, lookup_eq_some_iff, lookup_eq_some_iff]
  simp only [insert, List.mem_append, List.mem_singleton]
  constructor
  · rintro ⟨hb | rfl, e⟩
    · exact ⟨hb, e⟩
    · exact absurd e.symm h
  · exact fun ⟨hb, e⟩ => ⟨.inl hb, e⟩

/-! ## Insertions in a row -/

/-- `a` is in the list and nothing after it has its key. -/
def LastOf (key : α → κ) (l : List α) (a : α) : Prop :=
  ∃ before after, l = before ++ a :: after ∧ ∀ x ∈ after, key x ≠ key a

omit [DecidableEq κ] in
theorem LastOf.mem {l : List α} {a : α} (h : LastOf key l a) : a ∈ l := by
  obtain ⟨before, after, rfl, -⟩ := h
  simp

omit [DecidableEq κ] in
theorem lastOf_snoc {l : List α} {a b : α} :
    LastOf key (l ++ [b]) a ↔ b = a ∨ LastOf key l a ∧ key b ≠ key a := by
  constructor
  · rintro ⟨before, after, split, last⟩
    rcases List.eq_nil_or_concat after with rfl | ⟨after, c, rfl⟩
    · exact .inl (List.head_eq_of_cons_eq (List.append_inj' split rfl).2)
    · rw [List.concat_eq_append] at split last
      rw [← List.cons_append, ← List.append_assoc] at split
      obtain ⟨rfl, same⟩ := List.append_inj' split rfl
      obtain rfl := List.head_eq_of_cons_eq same
      refine .inr ⟨⟨before, after, rfl, fun x hx => last x (by simp [hx])⟩, last b (by simp)⟩
  · rintro (rfl | ⟨⟨before, after, rfl, last⟩, ne⟩)
    · exact ⟨l, [], rfl, by simp⟩
    · refine ⟨before, after ++ [b], by simp, fun x hx => ?_⟩
      rcases List.mem_append.1 hx with hx | hx
      · exact last x hx
      · rwa [List.mem_singleton.1 hx]

/-- Every value is, or comes before, the last of its key. -/
theorem exists_lastOf (key : α → κ) {R : α → α → Prop} {l : List α} (order : l.Pairwise R)
    {a : α} (ha : a ∈ l) : ∃ b, LastOf key l b ∧ key b = key a ∧ (b = a ∨ R a b) := by
  induction l using List.reverseRecOn with
  | nil => cases ha
  | append_singleton l c ih =>
    obtain ⟨before, -, cross⟩ := List.pairwise_append.1 order
    have self : LastOf key (l ++ [c]) c := lastOf_snoc.2 (.inl rfl)
    rcases List.mem_append.1 ha with ha | ha
    · by_cases same : key c = key a
      · exact ⟨c, self, same, .inr (cross a ha c (List.mem_singleton_self c))⟩
      · obtain ⟨b, last, keyed, after⟩ := ih before ha
        exact ⟨b, lastOf_snoc.2 (.inr ⟨last, by rwa [keyed]⟩), keyed, after⟩
    · rw [List.mem_singleton.1 ha]
      exact ⟨c, self, rfl, .inl rfl⟩

omit [DecidableEq κ] in
/-- In a set every value is the last of its key. -/
theorem lastOf_toList (s : KeyedSet key) {a : α} : LastOf key s.toList a ↔ a ∈ s.toList := by
  refine ⟨LastOf.mem, fun h => ?_⟩
  obtain ⟨before, after, split⟩ := List.append_of_mem h
  refine ⟨before, after, split, fun x hx same => ?_⟩
  have nodup := s.nodup
  rw [split, List.map_append, List.map_cons] at nodup
  have fresh := (List.nodup_cons.1 (List.nodup_append.1 nodup).2.1).1
  exact fresh (same ▸ List.mem_map_of_mem hx)

/-- Inserting one value after another leaves the last of each key. -/
theorem mem_foldl_insert (s : KeyedSet key) (l : List α) {a : α} :
    a ∈ (l.foldl insert s).toList ↔ LastOf key (s.toList ++ l) a := by
  induction l using List.reverseRecOn with
  | nil => rw [List.append_nil, s.lastOf_toList, List.foldl_nil]
  | append_singleton l b ih =>
    rw [List.foldl_concat, ← List.append_assoc, lastOf_snoc, ← ih]
    simp only [insert, erase, filter, List.mem_append, List.mem_filter, List.mem_singleton,
      decide_eq_true_eq]
    constructor
    · rintro (⟨mem, ne⟩ | rfl)
      · exact .inr ⟨mem, ne.symm⟩
      · exact .inl rfl
    · rintro (rfl | ⟨mem, ne⟩)
      · exact .inr rfl
      · exact .inl ⟨mem, ne.symm⟩

end KeyedSet
