import OlricStack.Ring.Crash

/-!
# Damaged files

`openMapping` checks the size of a file, not its cursors and not its bytes.  What a `Pop` does that
opens such a file with nobody else at work is settled by the marker or entry at the head and, after
a marker, by what stands at the start of the region; if the head is above the tail, also by what
stands where the cursors wrap (`pop_safe_iff`).  It may never return, index outside the region,
divide by zero or move the head past the tail (`damaged_file_breaks_pop`).
-/

namespace OlricStack.Ring

open ByteMemory

/-! ## What is asked of `Pop` -/

/-- The cursors in a file are 64-bit words. -/
def File.Words (f : File) : Prop := f.capacity < 2 ^ 64 ∧ f.head < 2 ^ 64 ∧ f.tail < 2 ^ 64

/-- No store moves the head further than the tail is away. -/
def NeverPasses (tail : ℕ) : ℕ → List Store → Prop
  | _, [] => True
  | head, .head cursor :: rest => sub64 cursor head ≤ sub64 tail head ∧ NeverPasses tail cursor rest
  | head, _ :: rest => NeverPasses tail head rest

/-- No store moves the head back or above the tail, the cursors taken as plain numbers. -/
def StaysBelow (tail : ℕ) : ℕ → List Store → Prop
  | _, [] => True
  | head, .head cursor :: rest => head ≤ cursor ∧ cursor ≤ tail ∧ StaysBelow tail cursor rest
  | head, _ :: rest => StaysBelow tail head rest

/-- With nobody else at work `Pop` returns, after some number of rounds, without an access outside
the region or a division by zero, and the head does not pass the tail. -/
def PopSafe (m : Mapping) : Prop :=
  ∃ n r stores, pop m (List.replicate n m.tail) = some (r, stores) ∧ r ≠ .error .panic ∧
    NeverPasses m.tail m.head stores

/-- The same with the cursors taken as plain numbers: with the head above the tail, nothing may be
stored. -/
def PopOrdered (m : Mapping) : Prop :=
  ∃ n r stores, pop m (List.replicate n m.tail) = some (r, stores) ∧ r ≠ .error .panic ∧
    StaysBelow m.tail m.head stores

/-! ## One round -/

/-- There are four bytes to read at the cursor. -/
def HasLength (m : Mapping) (x : ℕ) : Prop := x % m.capacity + 4 ≤ m.capacity

/-- There is a skip marker at the position. -/
def SkipAt (m : Mapping) (pos : ℕ) : Prop := readWord m.data pos = skipMarker

/-- `Pop` accepts the entry at the cursor. -/
def Accepted (m : Mapping) (x : ℕ) : Prop :=
  x % m.capacity + entrySize (readWord m.data (x % m.capacity)) ≤ m.capacity ∧
    crc32 (read m.data (x % m.capacity + 8) (readWord m.data (x % m.capacity))) =
      readWord m.data (x % m.capacity + 4)

/-- The entry at the cursor is refused, or it is not longer than the way to the tail. -/
def EndsInside (m : Mapping) (x : ℕ) : Prop :=
  Accepted m x → entrySize (readWord m.data (x % m.capacity)) ≤ sub64 m.tail x

/-- `Pop` refuses the entry at the head. -/
def Refused (m : Mapping) : Prop :=
  HasLength m m.head ∧ ¬SkipAt m (m.head % m.capacity) ∧ ¬Accepted m m.head

instance (m : Mapping) (x : ℕ) : Decidable (HasLength m x) := inferInstanceAs (Decidable (_ ≤ _))

instance (m : Mapping) (pos : ℕ) : Decidable (SkipAt m pos) := inferInstanceAs (Decidable (_ = _))

instance (m : Mapping) (x : ℕ) : Decidable (Accepted m x) := inferInstanceAs (Decidable (_ ∧ _))

instance (m : Mapping) (x : ℕ) : Decidable (EndsInside m x) := inferInstanceAs (Decidable (_ → _))

instance (m : Mapping) : Decidable (Refused m) := inferInstanceAs (Decidable (_ ∧ _ ∧ _))

/-- The rounds of `Pop`, by what stands at the head. -/
inductive RoundAt (m : Mapping) (t : ℕ) : PopRound → Prop
  | empty (drained : m.head = t) : RoundAt m t (.done .empty none)
  | panic (unread : m.head ≠ t) (short : ¬HasLength m m.head) :
      RoundAt m t (.done (.error .panic) none)
  | skip (unread : m.head ≠ t) (long : HasLength m m.head)
      (marker : SkipAt m (m.head % m.capacity)) :
      RoundAt m t (.again (add64 m.head (m.capacity - m.head % m.capacity)))
  | corrupted (unread : m.head ≠ t) (long : HasLength m m.head)
      (entry : ¬SkipAt m (m.head % m.capacity)) (refused : ¬Accepted m m.head) :
      RoundAt m t (.done (.error .corrupted) none)
  | payload {p : Bytes} (unread : m.head ≠ t) (long : HasLength m m.head)
      (entry : ¬SkipAt m (m.head % m.capacity)) (accepted : Accepted m m.head) :
      RoundAt m t (.done (.payload p)
        (some (add64 m.head (entrySize (readWord m.data (m.head % m.capacity))))))

theorem popRound_at (m : Mapping) (t : ℕ) : RoundAt m t (popRound m t) := by
  have word := readWord_lt m.data (m.head % m.capacity)
  simp only [popRound]
  split_ifs with drained zero short marker large crosses crc
  · exact .empty drained
  · exact .panic drained (by unfold HasLength; omega)
  · exact .panic drained (by unfold HasLength; omega)
  · exact .skip drained (by unfold HasLength; omega) marker
  · -- a word that is not the marker is a length
    unfold skipMarker at marker
    unfold maxPayload at large
    omega
  · refine .corrupted drained (by unfold HasLength; omega) marker fun accepted => ?_
    have fits := accepted.1
    unfold entrySize at fits
    omega
  · exact .corrupted drained (by unfold HasLength; omega) marker fun accepted => crc accepted.2
  · refine .payload drained (by unfold HasLength; omega) marker ⟨?_, not_not.1 crc⟩
    unfold entrySize
    omega

/-- What one round leaves to ask of the rest. -/
theorem popSafe_iff_round (m : Mapping) :
    PopSafe m ↔ match popRound m m.tail with
      | .done r stored => r ≠ .error .panic ∧
          ∀ cursor ∈ stored, sub64 cursor m.head ≤ sub64 m.tail m.head
      | .again head => sub64 head m.head ≤ sub64 m.tail m.head ∧
          PopSafe (m.store (.head head)) := by
  generalize round : popRound m m.tail = answer
  cases answer with
  | done r stored =>
    constructor
    · rintro ⟨n, r', stores, popped, returns, inside⟩
      cases n with
      | zero => cases popped
      | succ n =>
        simp only [List.replicate_succ, pop, round, Option.some.injEq, Prod.mk.injEq] at popped
        obtain ⟨rfl, rfl⟩ := popped
        refine ⟨returns, fun cursor member => ?_⟩
        rw [Option.mem_def.1 member] at inside
        exact inside.1
    · rintro ⟨returns, inside⟩
      refine ⟨1, r, stored.toList.map .head, by simp [pop, round], returns, ?_⟩
      cases stored with
      | none => trivial
      | some cursor => exact ⟨inside cursor rfl, trivial⟩
  | again head =>
    constructor
    · rintro ⟨n, r, stores, popped, returns, inside⟩
      cases n with
      | zero => cases popped
      | succ n =>
        simp only [List.replicate_succ, pop, round] at popped
        obtain ⟨⟨r', rest⟩, again, same⟩ := Option.map_eq_some_iff.1 popped
        obtain ⟨rfl, rfl⟩ := Prod.mk.inj same
        exact ⟨inside.1, n, r', rest, again, returns, inside.2⟩
    · rintro ⟨inside, n, r, rest, popped, returns, later⟩
      have tail : (m.store (.head head)).tail = m.tail := rfl
      rw [tail] at popped
      refine ⟨n + 1, r, .head head :: rest, ?_, returns, inside, later⟩
      simp only [List.replicate_succ, pop, round, popped]
      rfl

/-! ## Cursors -/

theorem sub64_add64 {x d : ℕ} (hx : x < 2 ^ 64) (hd : d < 2 ^ 64) : sub64 (add64 x d) x = d := by
  unfold sub64 add64
  omega

theorem sub64_of_lt {a b : ℕ} (lt : a < b) (hb : b < 2 ^ 64) : sub64 a b = a + (2 ^ 64 - b) :=
  Nat.mod_eq_of_lt (by omega)

/-- The sum of two words is below `2 ^ 65`, so it wraps once at most. -/
theorem add64_of_ge {a b : ℕ} (ha : a < 2 ^ 64) (hb : b < 2 ^ 64) (ge : 2 ^ 64 ≤ a + b) :
    add64 a b = a + b - 2 ^ 64 := by
  unfold add64
  rw [Nat.mod_eq_sub_mod ge, Nat.mod_eq_of_lt (by omega)]

theorem entrySize_lt (m : Mapping) (pos : ℕ) : entrySize (readWord m.data pos) < 2 ^ 64 := by
  have word := readWord_lt m.data pos
  unfold entrySize alignUp
  split_ifs <;> omega

section Rounds

variable {m : Mapping}

/-- The bytes from the head to the end of its lap. -/
def Mapping.gap (m : Mapping) : ℕ := m.capacity - m.head % m.capacity

/-- The ring once the marker at the head is passed. -/
def Mapping.nextLap (m : Mapping) : Mapping := { m with head := add64 m.head m.gap }

/-- The ring once the head has wrapped: it is where the lap ends that holds the last cursor. -/
def Mapping.wrapped (m : Mapping) : Mapping :=
  { m with head := (m.capacity - 2 ^ 64 % m.capacity) % m.capacity }

/-- The cursors are words, and so is the capacity. -/
structure Mapping.Words (m : Mapping) : Prop where
  capacity : m.capacity < 2 ^ 64
  head : m.head < 2 ^ 64
  tail : m.tail < 2 ^ 64

theorem Mapping.Words.gap (words : m.Words) : m.gap < 2 ^ 64 :=
  lt_of_le_of_lt (Nat.sub_le _ _) words.capacity

theorem Mapping.Words.nextLap (words : m.Words) : m.nextLap.Words :=
  ⟨words.capacity, add64_lt _ _, words.tail⟩

theorem Mapping.Words.wrapped (words : m.Words) (pos : 0 < m.capacity) : m.wrapped.Words :=
  ⟨words.capacity, (Nat.mod_lt _ pos).trans words.capacity, words.tail⟩

theorem popSafe_iff_head (words : m.Words) :
    PopSafe m ↔ m.head = m.tail ∨
      HasLength m m.head ∧
        if SkipAt m (m.head % m.capacity) then m.gap ≤ sub64 m.tail m.head ∧ PopSafe m.nextLap
        else EndsInside m m.head := by
  have size := entrySize_lt m (m.head % m.capacity)
  rw [popSafe_iff_round]
  have spec := popRound_at m m.tail
  generalize popRound m m.tail = round at spec
  cases spec with
  | empty drained =>
    exact iff_of_true ⟨PopResult.noConfusion, fun _ member => by cases member⟩ (.inl drained)
  | panic unread short =>
    exact iff_of_false (fun safe => safe.1 rfl) fun h => h.elim unread fun long => short long.1
  | skip unread long marker =>
    rw [or_iff_right unread, and_iff_right long, if_pos marker]
    have moved : sub64 (add64 m.head m.gap) m.head = m.gap := sub64_add64 words.head words.gap
    show sub64 (add64 m.head m.gap) m.head ≤ _ ∧ _ ↔ _
    rw [moved]
    rfl
  | corrupted unread long entry refused =>
    rw [or_iff_right unread, and_iff_right long, if_neg entry]
    refine iff_of_true ⟨?_, fun _ member => by cases member⟩ fun accepted => absurd accepted refused
    rintro ⟨⟩
  | payload unread long entry accepted =>
    rw [or_iff_right unread, and_iff_right long, if_neg entry]
    simp only [Option.mem_def, Option.some.injEq, forall_eq', sub64_add64 words.head size]
    exact ⟨fun inside _ => inside.2, fun ends => ⟨PopResult.noConfusion, ends accepted⟩⟩

theorem gap_le_iff (words : m.Words) (le : m.head ≤ m.tail) :
    m.gap ≤ sub64 m.tail m.head ↔ m.head + m.gap ≤ m.tail := by
  rw [sub64_eq le words.tail]
  omega

/-- With a marker at the start of the region `Pop` goes from lap to lap and stops at the tail, or
passes it. -/
theorem popSafe_iff_of_laps (long : 4 ≤ m.capacity) (marker : SkipAt m 0)
    (lap : m.capacity ∣ m.head) (words : m.Words) (le : m.head ≤ m.tail) :
    PopSafe m ↔ m.capacity ∣ m.tail := by
  -- on the bytes left before the tail
  induction left : m.tail - m.head using Nat.strong_induction_on generalizing m with
  | _ k ih =>
    rw [popSafe_iff_head words]
    by_cases drained : m.head = m.tail
    · exact iff_of_true (.inl drained) (drained ▸ lap)
    · have start : m.head % m.capacity = 0 := Nat.mod_eq_zero_of_dvd lap
      have gap : m.gap = m.capacity := by rw [Mapping.gap, start, Nat.sub_zero]
      have length : HasLength m m.head := by rwa [HasLength, start, Nat.zero_add]
      rw [or_iff_right drained, and_iff_right length, start, if_pos marker, gap_le_iff words le,
        gap]
      have tail := words.tail
      have rest (ends : m.head + m.capacity ≤ m.tail) :
          PopSafe m.nextLap ↔ m.capacity ∣ m.tail := by
        have next : m.nextLap.head = m.head + m.capacity := by
          rw [Mapping.nextLap, gap, add64_eq (by omega)]
        have shorter : m.tail - m.nextLap.head < k := by omega
        have lap' : m.capacity ∣ m.nextLap.head := by
          rw [next]
          exact Nat.dvd_add lap (dvd_refl _)
        exact ih _ shorter long marker lap' words.nextLap (next.trans_le ends) rfl
      constructor
      · rintro ⟨ends, safe⟩
        exact (rest ends).1 safe
      · intro whole
        have ends : m.head + m.capacity ≤ m.tail := by
          have gap : m.capacity ≤ m.tail - m.head :=
            Nat.le_of_dvd (by omega) (Nat.dvd_sub whole lap)
          omega
        exact ⟨ends, (rest ends).2 whole⟩

end Rounds

/-! ## The head at or below the tail -/

/-- The ring is empty; or there is an entry at the head that is refused or ends at or before the
tail; or there is a marker there, and the lap after it begins at the tail, or before it with such an
entry, or with a marker while the tail ends a lap. -/
def ReadableBelow (m : Mapping) : Prop :=
  m.head = m.tail ∨
    HasLength m m.head ∧
      if SkipAt m (m.head % m.capacity) then
        m.head + m.gap = m.tail ∨ m.head + m.gap < m.tail ∧
          if SkipAt m 0 then m.capacity ∣ m.tail else EndsInside m (m.head + m.gap)
      else EndsInside m m.head

section Below

variable {m : Mapping}

theorem popSafe_of_drained (words : m.Words) (drained : m.head = m.tail) : PopSafe m :=
  (popSafe_iff_head words).2 (.inl drained)

/-- An entry at the start of a lap settles the call. -/
theorem popSafe_iff_endsInside (words : m.Words) (long : 4 ≤ m.capacity) (unread : m.head ≠ m.tail)
    (start : m.head % m.capacity = 0) (entry : ¬SkipAt m 0) : PopSafe m ↔ EndsInside m m.head := by
  have length : HasLength m m.head := by rwa [HasLength, start, Nat.zero_add]
  rw [popSafe_iff_head words, or_iff_right unread, and_iff_right length, start, if_neg entry]

theorem add_gap_mod (pos : 0 < m.capacity) : (m.head + m.gap) % m.capacity = 0 :=
  add_sub_mod pos m.head

theorem popSafe_iff_readableBelow (words : m.Words) (le : m.head ≤ m.tail) :
    PopSafe m ↔ ReadableBelow m := by
  rw [ReadableBelow, popSafe_iff_head words]
  refine or_congr_right (and_congr_right fun long => ?_)
  by_cases marker : SkipAt m (m.head % m.capacity)
  swap
  · rw [if_neg marker, if_neg marker]
  rw [if_pos marker, if_pos marker, gap_le_iff words le, le_iff_eq_or_lt, or_and_right]
  have four : 4 ≤ m.capacity := le_trans (Nat.le_add_left _ _) long
  have start := add_gap_mod (m := m) (by omega)
  have tail := words.tail
  have next (ends : m.head + m.gap ≤ m.tail) : m.nextLap.head = m.head + m.gap :=
    add64_eq (by omega)
  refine or_congr ?_ (and_congr_right fun inside => ?_)
  · -- the lap begins at the tail: the ring is empty
    exact and_iff_left_of_imp fun ends =>
      popSafe_of_drained words.nextLap ((next ends.le).trans ends)
  have same := next inside.le
  have start : m.nextLap.head % m.capacity = 0 := by rwa [same]
  by_cases first : SkipAt m 0
  · rw [if_pos first]
    exact popSafe_iff_of_laps (m := m.nextLap) four first (Nat.dvd_of_mod_eq_zero start)
      words.nextLap (same.trans_le inside.le)
  · have unread : m.nextLap.head ≠ m.tail := by
      rw [same]
      exact inside.ne
    rw [if_neg first, popSafe_iff_endsInside words.nextLap four unread start first, same]
    rfl

end Below

/-! ## The head above the tail -/

/-- There is an entry at the head that is refused or not longer than the way to the tail; or a
marker there and such an entry at the start of the next lap; or there are markers up to the wrap,
which comes out at or below the tail, and from there the ring is readable. -/
def ReadableAbove (m : Mapping) : Prop :=
  HasLength m m.head ∧
    if SkipAt m (m.head % m.capacity) then
      if m.head + m.gap < 2 ^ 64 ∧ ¬SkipAt m 0 then EndsInside m (m.head + m.gap)
      else m.wrapped.head ≤ m.tail ∧ ReadableBelow m.wrapped
    else EndsInside m m.head

section Above

variable {m : Mapping}

theorem eq_sub_mod_of_add_mod {w c d : ℕ} (lt : d < c) (whole : (w + d) % c = 0) :
    d = (c - w % c) % c := by
  have rest := Nat.mod_lt w (Nat.zero_lt_of_lt lt)
  rw [Nat.add_mod, Nat.mod_eq_of_lt lt] at whole
  rcases Nat.eq_zero_or_pos (w % c + d) with none | some
  · rw [show w % c = 0 by omega, Nat.sub_zero, Nat.mod_self]
    omega
  · have ends := Nat.le_of_dvd some (Nat.dvd_of_mod_eq_zero whole)
    rw [Nat.mod_eq_sub_mod ends, Nat.mod_eq_of_lt (by omega)] at whole
    rw [Nat.mod_eq_of_lt (by omega)]
    omega

/-- The lap that holds the last cursor ends where the ring goes on after the wrap. -/
theorem nextLap_eq_wrapped (words : m.Words) (pos : 0 < m.capacity)
    (wraps : 2 ^ 64 ≤ m.head + m.gap) : m.nextLap = m.wrapped := by
  have head := words.head
  have lap : m.gap ≤ m.capacity := Nat.sub_le _ _
  have start := add_gap_mod pos
  rw [← Nat.add_sub_of_le wraps] at start
  rw [Mapping.nextLap, Mapping.wrapped, add64_of_ge head words.gap wraps,
    ← eq_sub_mod_of_add_mod (by omega) start]

/-- The step at a marker: up to the wrap no step is too long, and the one that wraps is not if it
comes out at or below the tail. -/
theorem skip_iff_of_above (words : m.Words) (pos : 0 < m.capacity) (above : m.tail < m.head) :
    m.gap ≤ sub64 m.tail m.head ∧ PopSafe m.nextLap ↔
      if m.head + m.gap < 2 ^ 64 then PopSafe { m with head := m.head + m.gap }
      else m.wrapped.head ≤ m.tail ∧ PopSafe m.wrapped := by
  have head := words.head
  rw [sub64_of_lt above head]
  split_ifs with short
  · rw [Mapping.nextLap, add64_eq short, and_iff_right (by omega)]
  · have wraps : 2 ^ 64 ≤ m.head + m.gap := not_lt.1 short
    have same := nextLap_eq_wrapped words pos wraps
    have next : m.wrapped.head = m.head + m.gap - 2 ^ 64 := by
      rw [← same]
      exact add64_of_ge head words.gap wraps
    rw [same, next]
    exact and_congr_left fun _ => by omega

/-- With a marker at the start of the region `Pop` goes from lap to lap up to the wrap. -/
theorem popSafe_iff_wrapped (long : 4 ≤ m.capacity) (marker : SkipAt m 0)
    (lap : m.capacity ∣ m.head) (words : m.Words) (above : m.tail < m.head) :
    PopSafe m ↔ m.wrapped.head ≤ m.tail ∧ PopSafe m.wrapped := by
  -- on the cursors left before the wrap
  induction left : 2 ^ 64 - m.head using Nat.strong_induction_on generalizing m with
  | _ k ih =>
    have start : m.head % m.capacity = 0 := Nat.mod_eq_zero_of_dvd lap
    have gap : m.gap = m.capacity := by rw [Mapping.gap, start, Nat.sub_zero]
    have length : HasLength m m.head := by rwa [HasLength, start, Nat.zero_add]
    rw [popSafe_iff_head words, or_iff_right above.ne', and_iff_right length, start, if_pos marker,
      skip_iff_of_above words (by omega) above, gap]
    split_ifs with short
    · have head := words.head
      have next : Mapping.Words { m with head := m.head + m.capacity } :=
        ⟨words.capacity, short, words.tail⟩
      have shorter : 2 ^ 64 - (m.head + m.capacity) < k := by omega
      exact ih _ shorter long marker (Nat.dvd_add lap (dvd_refl _)) next
        (Nat.lt_add_right _ above) rfl
    · rfl

theorem popSafe_iff_readableAbove (words : m.Words) (above : m.tail < m.head) :
    PopSafe m ↔ ReadableAbove m := by
  rw [ReadableAbove, popSafe_iff_head words, or_iff_right above.ne']
  refine and_congr_right fun length => ?_
  by_cases marker : SkipAt m (m.head % m.capacity)
  swap
  · rw [if_neg marker, if_neg marker]
  have four : 4 ≤ m.capacity := le_trans (Nat.le_add_left _ _) length
  have wrapped : m.wrapped.head ≤ m.tail ∧ PopSafe m.wrapped ↔
      m.wrapped.head ≤ m.tail ∧ ReadableBelow m.wrapped :=
    and_congr_right fun le => popSafe_iff_readableBelow (words.wrapped (by omega)) le
  rw [if_pos marker, if_pos marker, skip_iff_of_above words (by omega) above, ← wrapped]
  by_cases short : m.head + m.gap < 2 ^ 64
  swap
  · rw [if_neg short, if_neg fun both => short both.1]
  have next : Mapping.Words { m with head := m.head + m.gap } :=
    ⟨words.capacity, short, words.tail⟩
  have start := add_gap_mod (m := m) (by omega)
  have later : m.tail < m.head + m.gap := Nat.lt_add_right _ above
  rw [if_pos short]
  by_cases first : SkipAt m 0
  · rw [if_neg fun both => both.2 first]
    exact popSafe_iff_wrapped (m := { m with head := m.head + m.gap }) four first
      (Nat.dvd_of_mod_eq_zero start) next later
  · rw [if_pos ⟨short, first⟩]
    exact popSafe_iff_endsInside next four later.ne' start first

end Above

/-! ## Any cursors -/

/-- What stands at the head, and behind the markers there, is readable. -/
def Readable (m : Mapping) : Prop :=
  if m.head ≤ m.tail then ReadableBelow m else ReadableAbove m

instance (m : Mapping) : Decidable (ReadableBelow m) :=
  inferInstanceAs (Decidable (_ ∨ _ ∧ ite _ _ _))

instance (m : Mapping) : Decidable (ReadableAbove m) := inferInstanceAs (Decidable (_ ∧ ite _ _ _))

instance (m : Mapping) : Decidable (Readable m) := inferInstanceAs (Decidable (ite _ _ _))

theorem popSafe_iff_readable {m : Mapping} (words : m.Words) : PopSafe m ↔ Readable m := by
  unfold Readable
  split_ifs with le
  · exact popSafe_iff_readableBelow words le
  · exact popSafe_iff_readableAbove words (not_le.1 le)

/-- A head that stays below the tail as a number does not pass it. -/
theorem StaysBelow.neverPasses {tail head : ℕ} {stores : List Store} (ht : tail < 2 ^ 64)
    (h : StaysBelow tail head stores) : NeverPasses tail head stores := by
  induction stores generalizing head with
  | nil => trivial
  | cons store rest ih =>
    cases store with
    | bytes pos bs => exact ih h
    | tail cursor => exact ih h
    | head cursor =>
      obtain ⟨forward, inside, later⟩ := h
      refine ⟨?_, ih later⟩
      rw [sub64_eq forward (by omega), sub64_eq (forward.trans inside) ht]
      omega

theorem bounds_of_sub64_le {head tail cursor : ℕ} (le : head ≤ tail) (ht : tail < 2 ^ 64)
    (lt : cursor < 2 ^ 64) (inside : sub64 cursor head ≤ sub64 tail head) :
    head ≤ cursor ∧ cursor ≤ tail := by
  rw [sub64_eq le ht] at inside
  rcases Nat.lt_or_ge cursor head with back | forward
  · rw [sub64_of_lt back (by omega)] at inside
    omega
  · rw [sub64_eq forward lt] at inside
    omega

/-- From a head at or below the tail the two are the same. -/
theorem NeverPasses.staysBelow {m : Mapping} {n : ℕ} {r : PopResult} {stores : List Store}
    (words : m.Words) (le : m.head ≤ m.tail)
    (popped : pop m (List.replicate n m.tail) = some (r, stores))
    (h : NeverPasses m.tail m.head stores) : StaysBelow m.tail m.head stores := by
  induction n generalizing m stores with
  | zero => cases popped
  | succ n ih =>
    have spec := popRound_at m m.tail
    simp only [List.replicate_succ, pop] at popped
    generalize popRound m m.tail = round at spec popped
    cases spec with
    | empty | panic | corrupted =>
      cases popped
      trivial
    | payload =>
      cases popped
      obtain ⟨forward, inside⟩ := bounds_of_sub64_le le words.tail (add64_lt _ _) h.1
      exact ⟨forward, inside, trivial⟩
    | skip =>
      obtain ⟨⟨r', rest⟩, again, same⟩ := Option.map_eq_some_iff.1 popped
      obtain ⟨rfl, rfl⟩ := Prod.mk.inj same
      obtain ⟨forward, inside⟩ := bounds_of_sub64_le le words.tail (add64_lt _ _) h.1
      exact ⟨forward, inside, ih words.nextLap inside again h.2⟩

/-- With the head above the tail `Pop` may store nothing: it must refuse the entry at the head. -/
theorem popOrdered_iff_refused {m : Mapping} (above : m.tail < m.head) :
    PopOrdered m ↔ Refused m := by
  have spec := popRound_at m m.tail
  constructor
  · rintro ⟨n, r, stores, popped, returns, below⟩
    cases n with
    | zero => cases popped
    | succ n =>
      simp only [List.replicate_succ, pop] at popped
      generalize popRound m m.tail = round at spec popped
      cases spec with
      | empty drained => exact absurd drained above.ne'
      | panic =>
        cases popped
        exact absurd rfl returns
      | skip =>
        obtain ⟨⟨r', rest⟩, -, same⟩ := Option.map_eq_some_iff.1 popped
        obtain ⟨rfl, rfl⟩ := Prod.mk.inj same
        exact absurd (below.1.trans below.2.1) (not_le.2 above)
      | corrupted _ long entry refused => exact ⟨long, entry, refused⟩
      | payload =>
        cases popped
        exact absurd (below.1.trans below.2.1) (not_le.2 above)
  · rintro ⟨long, entry, refused⟩
    refine ⟨1, .error .corrupted, [], ?_, by rintro ⟨⟩, trivial⟩
    simp only [List.replicate_succ, pop]
    generalize popRound m m.tail = round at spec
    cases spec with
    | empty drained => exact absurd drained above.ne'
    | panic _ short => exact absurd long short
    | skip _ _ marker => exact absurd marker entry
    | corrupted => rfl
    | payload _ _ _ accepted => exact absurd accepted refused

/-- Take any file that `openMapping` accepts.  `Pop` is safe on it exactly if what stands at the
head, and behind the markers there, is readable.  With the cursors taken as plain numbers, the head
must besides not be above the tail, unless the entry there is refused. -/
theorem pop_safe_iff {f : File} {m : Mapping} (words : f.Words) (accepted : openMapping f = .ok m) :
    (PopSafe m ↔ Readable m) ∧
      (PopOrdered m ↔ if m.head ≤ m.tail then ReadableBelow m else Refused m) := by
  have fields : m = ⟨f.capacity, f.head, f.tail, f.data⟩ := by
    simp only [openMapping] at accepted
    split_ifs at accepted
    exact (Except.ok.inj accepted).symm
  have words : m.Words := by
    rw [fields]
    exact ⟨words.1, words.2.1, words.2.2⟩
  refine ⟨popSafe_iff_readable words, ?_⟩
  split_ifs with le
  · rw [← popSafe_iff_readableBelow words le]
    constructor
    · rintro ⟨n, r, stores, popped, returns, below⟩
      exact ⟨n, r, stores, popped, returns, below.neverPasses words.tail⟩
    · rintro ⟨n, r, stores, popped, returns, inside⟩
      exact ⟨n, r, stores, popped, returns, inside.staysBelow words le popped⟩
  · exact popOrdered_iff_refused (not_le.1 le)

/-! ## Files on which it is not -/

/-- A file of a ring with the given cursors and bytes. -/
def damagedFile (capacity head tail : ℕ) (data : Memory) : File :=
  (⟨capacity, head, tail, data⟩ : Mapping).file

/-- A payload ends at the tail; and one that is refused, with the head above the tail. -/
theorem pop_safe_iff_one :
    (∃ m, openMapping (damagedFile 4096 0 8 fun _ => 0) = .ok m ∧ PopSafe m) ∧
    ∃ m, openMapping (damagedFile 4096 8 0 fun i => if i = 12 then 1 else 0) = .ok m ∧
      m.tail < m.head ∧ PopSafe m ∧ PopOrdered m := by
  have below : openMapping (damagedFile 4096 0 8 fun _ => 0) = .ok ⟨4096, 0, 8, fun _ => 0⟩ :=
    openMapping_file (by decide)
  have above : openMapping (damagedFile 4096 8 0 fun i => if i = 12 then 1 else 0) =
      .ok ⟨4096, 8, 0, fun i => if i = 12 then 1 else 0⟩ := openMapping_file (by decide)
  have words : File.Words (damagedFile 4096 8 0 fun i => if i = 12 then 1 else 0) :=
    ⟨by decide, by decide, by decide⟩
  constructor
  · refine ⟨_, below, (pop_safe_iff ?_ below).1.2 (by decide +kernel)⟩
    exact ⟨by decide, by decide, by decide⟩
  · exact ⟨_, above, by decide, (pop_safe_iff words above).1.2 (by decide +kernel),
      (pop_safe_iff words above).2.2 (by decide +kernel)⟩

/-- A region full of markers, and a tail in the first lap. -/
theorem pop_of_markers {x : ℕ} (lap : 4096 ∣ x) (n : ℕ) :
    pop ⟨4096, x, 8, fun _ => 255⟩ (List.replicate n 8) = none := by
  induction n generalizing x with
  | zero => rfl
  | succ n ih =>
    have start : x % 4096 = 0 := Nat.mod_eq_zero_of_dvd lap
    have round : popRound ⟨4096, x, 8, fun _ => 255⟩ 8 = .again (add64 x 4096) := by
      have marker : readWord (fun _ => 255) 0 = skipMarker := by decide
      simp only [popRound, start, marker]
      rw [if_neg (by omega)]
      rfl
    have next : 4096 ∣ add64 x 4096 :=
      (Nat.dvd_mod_iff (by decide)).2 (Nat.dvd_add lap (dvd_refl _))
    simp only [List.replicate_succ, pop, round, Mapping.store, ih next, Option.map_none]

/-- `openMapping` accepts a file on which `Pop` goes from marker to marker for ever, one without a
data region on which it divides by zero, one whose head is too close to the end of the region, and
one whose first entry ends behind the tail. -/
theorem damaged_file_breaks_pop :
    (∃ m, openMapping (damagedFile 4096 0 8 fun _ => 255) = .ok m ∧
      ∀ n, pop m (List.replicate n m.tail) = none) ∧
    (∃ m, openMapping (damagedFile 0 0 8 fun _ => 0) = .ok m ∧
      pop m [m.tail] = some (.error .panic, [])) ∧
    (∃ m, openMapping (damagedFile 4096 4094 4096 fun _ => 0) = .ok m ∧
      pop m [m.tail] = some (.error .panic, [])) ∧
    ∃ m, openMapping (damagedFile 4096 0 4 fun _ => 0) = .ok m ∧
      pop m [m.tail] = some (.payload [], [.head 8]) ∧ m.tail < 8 := by
  refine ⟨⟨_, openMapping_file (by decide), pop_of_markers (dvd_zero _)⟩,
    ⟨_, openMapping_file (by decide), by decide +kernel⟩,
    ⟨_, openMapping_file (by decide), by decide +kernel⟩,
    ⟨_, openMapping_file (by decide), by decide +kernel, by decide⟩⟩

end OlricStack.Ring
