import OlricStack.Ring.Fifo

/-!
# Room in an empty ring

An entry does not wrap around the end of the data region, and the bytes it skips there count as
needed.  So it depends on where the cursor stands whether a payload goes into an empty ring
(`empty_ring_accepts_iff`): one of more than half the capacity may be refused although nothing is
unread, and then it is refused for good (`empty_ring_refuses`).
-/

namespace OlricStack.Ring

open ByteMemory Transition

/-! ## Alignment -/

theorem dvd_add64 {a b : ℕ} (ha : 8 ∣ a) (hb : 8 ∣ b) : 8 ∣ add64 a b :=
  (Nat.dvd_mod_iff (by decide)).2 (Nat.dvd_add ha hb)

/-- A tail that an `Append` stores is aligned, whatever it has loaded. -/
theorem dvd_of_append {m : Mapping} {head : ℕ} {p : Bytes} {stores : List Store}
    (dvd_capacity : 8 ∣ m.capacity) (dvd_tail : 8 ∣ m.tail)
    (ok : append m head p = .ok stores) {cursor : ℕ} (mem : .tail cursor ∈ stores) :
    8 ∣ cursor ∧ cursor < 2 ^ 64 := by
  have dvd_pos : 8 ∣ m.tail % m.capacity := (Nat.dvd_mod_iff dvd_capacity).2 dvd_tail
  have dvd_size := dvd_alignUp (8 + p.length % 2 ^ 32)
  simp only [append] at ok
  split_ifs at ok
  · obtain rfl := Except.ok.inj ok
    obtain rfl : cursor = _ := by simpa [entryStores] using mem
    exact ⟨dvd_add64 (dvd_add64 dvd_tail (Nat.dvd_sub dvd_capacity dvd_pos)) dvd_size, add64_lt _ _⟩
  · obtain rfl := Except.ok.inj ok
    obtain rfl : cursor = _ := by simpa [entryStores] using mem
    exact ⟨dvd_add64 dvd_tail dvd_size, add64_lt _ _⟩

/-- The capacity stays, and the tail is aligned. -/
structure Aligned (c : ℕ) (s : System) : Prop where
  capacity : s.ring.capacity = c
  dvd_capacity : 8 ∣ c
  tail : 8 ∣ s.ring.tail ∧ s.ring.tail < 2 ^ 64
  pending : ∀ p stores, s.pending = some (p, stores) → ∀ cursor, .tail cursor ∈ stores →
    8 ∣ cursor ∧ cursor < 2 ^ 64

theorem Aligned.step {c : ℕ} {s u : System} {a : Action} (h : Aligned c s)
    (enabled : step s a = some u) : Aligned c u := by
  cases a with
  | append head payload =>
    simp only [Ring.step] at enabled
    split_ifs at enabled
    split at enabled
    · cases enabled
      exact h
    · next ok =>
      cases enabled
      refine ⟨h.capacity, h.dvd_capacity, h.tail, fun p stores pending cursor mem => ?_⟩
      obtain ⟨rfl, rfl⟩ := Prod.mk.inj (Option.some.inj pending)
      exact dvd_of_append (h.capacity ▸ h.dvd_capacity) h.tail.1 ok mem
  | store =>
    simp only [Ring.step] at enabled
    split at enabled
    · next pending =>
      cases enabled
      refine ⟨h.capacity, h.dvd_capacity, h.tail, fun p stores pending' cursor mem => ?_⟩
      obtain ⟨rfl, rfl⟩ := Prod.mk.inj (Option.some.inj pending')
      exact h.pending _ _ pending cursor (List.mem_cons_of_mem _ mem)
    · next pending =>
      cases enabled
      exact ⟨h.capacity, h.dvd_capacity, h.pending _ _ pending _ List.mem_cons_self, by simp⟩
    · cases enabled
  | pop t =>
    simp only [Ring.step] at enabled
    split at enabled <;> cases enabled <;>
      exact ⟨h.capacity, h.dvd_capacity, h.tail, h.pending⟩

theorem aligned_start {n : UInt64} {m : Mapping} (created : create n = .ok m) :
    Aligned m.capacity (.start m) := by
  obtain ⟨-, tail, dvd, -⟩ := create_ok created
  refine ⟨rfl, dvd, ?_, by simp [System.start]⟩
  simp [System.start, tail]

/-! ## An empty ring -/

/-- The entry goes in before the end of the region, or before the cursor at its start.  Lengths
count modulo `2 ^ 32`, and the length that reads as a skip marker is refused. -/
def Accepts (m : Mapping) (p : Bytes) : Prop :=
  p.length % 2 ^ 32 ≤ maxPayload ∧
    (m.tail % m.capacity + entrySize (p.length % 2 ^ 32) ≤ m.capacity ∨
      entrySize (p.length % 2 ^ 32) ≤ m.tail % m.capacity)

/-- The bytes of an entry grow with the payload. -/
theorem entrySize_mono {a b : ℕ} (le : a ≤ b) : entrySize a ≤ entrySize b := by
  unfold entrySize alignUp
  split_ifs <;> omega

/-- `Append` succeeds exactly if the bytes it takes are free.  Lengths count modulo `2 ^ 32`. -/
theorem append_isOk_iff {m : Mapping} {p : Bytes} (pos : 0 < m.capacity)
    (dvd_capacity : 8 ∣ m.capacity) (capacity_lt : m.capacity < 2 ^ 63) (dvd_tail : 8 ∣ m.tail)
    (tail_lt : m.tail < 2 ^ 64) (head_le : m.head ≤ m.tail)
    (tail_le : m.tail ≤ m.head + m.capacity) :
    (append m m.head p).isOk ↔ p.length % 2 ^ 32 ≤ maxPayload ∧
      entrySize (p.length % 2 ^ 32) ≤ m.capacity ∧
      m.tail + span m.capacity m.tail (p.length % 2 ^ 32) ≤ m.head + m.capacity := by
  have size : alignUp (8 + p.length % 2 ^ 32) = entrySize (p.length % 2 ^ 32) := rfl
  have room := room_of_dvd pos dvd_capacity dvd_tail
  have free : sub64 m.capacity (sub64 m.tail m.head) = m.capacity - (m.tail - m.head) := by
    rw [sub64_eq head_le tail_lt, sub64_eq (by omega) (by omega)]
  simp only [append, size, free, span]
  by_cases big : entrySize (p.length % 2 ^ 32) > m.capacity
  · rw [if_pos big]
    split_ifs <;> simp only [Except.isOk, Except.toBool, Bool.false_eq_true, false_iff] <;> omega
  · have sum : add64 (m.capacity - m.tail % m.capacity) (entrySize (p.length % 2 ^ 32)) =
        m.capacity - m.tail % m.capacity + entrySize (p.length % 2 ^ 32) := add64_eq (by omega)
    rw [if_neg big, sum]
    split_ifs <;>
      simp only [Except.isOk, Except.toBool, Bool.false_eq_true, false_iff, true_iff] <;> omega

theorem append_empty_isOk_iff {m : Mapping} {p : Bytes} (dvd_capacity : 8 ∣ m.capacity)
    (capacity_lt : m.capacity < 2 ^ 63) (dvd_tail : 8 ∣ m.tail) (tail_lt : m.tail < 2 ^ 64)
    (empty : m.head = m.tail) (fits : alignUp (8 + p.length) ≤ m.capacity) :
    (append m m.head p).isOk ↔ Accepts m p := by
  have small := entrySize_mono (Nat.mod_le p.length (2 ^ 32))
  have whole : entrySize p.length ≤ m.capacity := fits
  have pos : 0 < m.capacity := by
    have := le_entrySize p.length
    omega
  have inside := Nat.mod_lt m.tail pos
  rw [append_isOk_iff pos dvd_capacity capacity_lt dvd_tail tail_lt empty.le (by omega), Accepts,
    span, empty]
  split_ifs <;> omega

/-! ## One entry -/

theorem append_start {m : Mapping} {p : Bytes} (tail : m.tail = 0)
    (lt : m.capacity < 2 ^ 63) (small : p.length ≤ maxPayload)
    (fits : entrySize p.length ≤ m.capacity) :
    append m 0 p = .ok (entryStores 0 p.length p ++ [.tail (entrySize p.length)]) := by
  have len : p.length % 2 ^ 32 = p.length := by
    unfold maxPayload at small
    exact Nat.mod_eq_of_lt (by omega)
  have size : alignUp (8 + p.length) = entrySize p.length := rfl
  have free : sub64 m.capacity (sub64 0 0) = m.capacity := by
    rw [sub64_eq le_rfl (by decide), sub64_eq (Nat.zero_le _) (by omega)]
    rfl
  have inside : ¬m.capacity < entrySize p.length := by omega
  simp only [append, len, size, tail, free, Nat.zero_mod, Nat.sub_zero, inside, if_false]
  rw [if_neg (by omega), add64_eq (by omega), Nat.zero_add]

/-- An entry goes through a new ring and leaves it empty, with the cursors behind the entry. -/
theorem one_entry_passes {n : UInt64} {m : Mapping} (created : create n = .ok m) {p : Bytes}
    (small : p.length < 2 ^ 32 - 1) (fits : entrySize p.length ≤ m.capacity) :
    ∃ s, Run step (fun s a => Current s a ∧ Fits s a ∧ Coherent s a) (.start m)
        [.append 0 p, .store, .store, .store, .store, .pop (entrySize p.length)] s ∧
      s.ring.capacity = m.capacity ∧ s.ring.head = entrySize p.length ∧
      s.ring.tail = entrySize p.length := by
  obtain ⟨head, tail, dvd, lt, -⟩ := create_ok created
  have max : p.length ≤ maxPayload := by unfold maxPayload; omega
  have size := le_entrySize p.length
  have ok := append_start tail lt max fits
  have bound : m.tail + span m.capacity m.tail p.length < 2 ^ 64 := by
    rw [tail, span, Nat.zero_mod, if_neg (by omega)]
    omega
  -- the state once the tail is stored
  let data := write (write (write m.data 0 (le32 p.length)) (0 + 4) (le32 (crc32 p))) (0 + 8)
    (p.take p.length)
  let stored : System := ⟨⟨m.capacity, m.head, entrySize p.length, data⟩, [m.head],
    [entrySize p.length, m.tail], 0, m.tail, none, false, [(p, entrySize p.length)], []⟩
  have appended : Run step (fun s a => Current s a ∧ Fits s a ∧ Coherent s a) (.start m)
      [.append 0 p, .store, .store, .store, .store] stored := by
    refine .cons _ ⟨?_, ⟨small, fun _ => bound⟩, ?_⟩ (by simp only [step, System.start, ok]; rfl) ?_
    · rw [Current, System.start, head]
      exact List.mem_singleton_self 0
    · rw [Coherent, System.start, head]
    refine .cons _ ⟨trivial, trivial, trivial⟩ rfl ?_
    refine .cons _ ⟨trivial, trivial, trivial⟩ rfl ?_
    refine .cons _ ⟨trivial, trivial, trivial⟩ rfl ?_
    exact .cons _ ⟨trivial, trivial, trivial⟩ rfl .nil
  have entry : EntryAt stored.ring.data (stored.ring.head % stored.ring.capacity) p := by
    have whole : data = write (write (write m.data 0 (le32 p.length)) (0 + 4) (le32 (crc32 p)))
        (0 + 8) p := by
      simp only [data, List.take_length]
    rw [show stored.ring.head % stored.ring.capacity = 0 by simp [stored, head],
      show stored.ring.data = data from rfl, whole]
    exact entryAt_store m.data 0 p (by omega)
  have popped : popRound stored.ring (entrySize p.length) =
      .done (.payload p) (some (entrySize p.length)) := by
    have round := popRound_entry (t := entrySize p.length) (m := stored.ring)
      (by simp only [stored, head]; omega) (by simp only [stored]; omega) max
      (by simp only [stored, head, Nat.zero_mod]; omega) entry (by simp only [stored, head]; omega)
    simpa only [stored, head, Nat.zero_add] using round
  refine ⟨_, .snoc _ appended ⟨?_, trivial, ?_⟩ (by simp only [step, popped]; rfl), rfl, rfl, rfl⟩
  · simp [Current, stored]
  · simp [Coherent, stored, tail]

/-! ## Draining -/

/-- Only rounds of `Pop`. -/
def Draining (_ : System) : Action → Prop
  | .pop _ => True
  | _ => False

instance (s : System) : DecidablePred (Draining s)
  | .pop _ => isTrue trivial
  | .append _ _ | .store => isFalse id

/-- The consumer moves only the head. -/
theorem tail_of_draining {s u : System} {as : List Action} (run : Run step Draining s as u) :
    u.ring.capacity = s.ring.capacity ∧ u.ring.tail = s.ring.tail := by
  refine run.invariant
    (fun u => u.ring.capacity = s.ring.capacity ∧ u.ring.tail = s.ring.tail) ⟨rfl, rfl⟩ ?_
  intro t a u same draining enabled
  cases a with
  | append => exact draining.elim
  | store => exact draining.elim
  | pop tail =>
    simp only [step] at enabled
    split at enabled <;> cases enabled <;> exact same

/-- Rounds of `Pop` that load a current and coherent tail move the head forward, up to the tail. -/
theorem inv_of_draining {c : ℕ} {s u : System} {pops : List Action} (inv : Inv c s)
    (run : Run step (fun s a => Draining s a ∧ Current s a ∧ Coherent s a) s pops u) :
    Inv c u ∧ s.ring.head ≤ u.ring.head ∧ u.ring.tail = s.ring.tail := by
  refine run.invariant
    (fun u => Inv c u ∧ s.ring.head ≤ u.ring.head ∧ u.ring.tail = s.ring.tail)
    ⟨inv, le_rfl, rfl⟩ ?_
  rintro t a u ⟨inv, le, same⟩ ⟨draining, current, coherent⟩ enabled
  cases a with
  | append => exact draining.elim
  | store => exact draining.elim
  | pop tail =>
    have next := inv.pop current coherent enabled
    obtain ⟨read, unread, split⟩ := inv.split
    have spec := inv.popRound_spec split current coherent
    simp only [step] at enabled
    generalize popRound t.ring tail = round at spec enabled
    cases spec with
    | empty =>
      cases enabled
      exact ⟨next, le, same⟩
    | payload _ _ _ _ lt =>
      cases enabled
      exact ⟨next, le.trans lt.le, same⟩
    | again _ _ lt =>
      cases enabled
      exact ⟨next, le.trans lt.le, same⟩

/-- From every state that calls of `Append` and `Pop` can lead to, once the consumer has drained the
ring, a payload that fits into the data region is accepted exactly if it fits where the tail
stands. -/
theorem empty_ring_accepts_iff {n : UInt64} {m : Mapping} (created : create n = .ok m)
    {as : List Action} {s : System} (run : Run step anyAction (.start m) as s)
    {pops : List Action} {u : System} (drains : Run step Draining s pops u)
    (empty : u.ring.head = u.ring.tail) {p : Bytes} (fits : alignUp (8 + p.length) ≤ m.capacity) :
    (append u.ring u.ring.head p).isOk ↔ Accepts s.ring p := by
  have aligned : Aligned m.capacity s := run.invariant (Aligned m.capacity) (aligned_start created)
    fun t a u h _ enabled => h.step enabled
  obtain ⟨-, -, -, lt, -⟩ := create_ok created
  obtain ⟨capacity, tail⟩ := tail_of_draining drains
  have drained : u.ring.capacity = m.capacity := capacity.trans aligned.capacity
  rw [append_empty_isOk_iff (drained ▸ aligned.dvd_capacity) (by omega) (tail ▸ aligned.tail.1)
    (tail ▸ aligned.tail.2) empty (drained ▸ fits)]
  unfold Accepts
  rw [capacity, tail]

/-- One entry of 16 bytes goes through a ring of 4096 bytes. -/
def oneEntryRun : List Action := [.append 0 [7], .store, .store, .store, .store, .pop 16]

theorem empty_ring_accepts_small :
    ∃ m s, create 4096 = .ok m ∧ Run step anyAction (.start m) oneEntryRun s ∧
      s.ring.head = s.ring.tail ∧ (append s.ring s.ring.head [8]).isOk := by
  obtain ⟨s, run, empty, accepts⟩ := Run.exists_of_exec step anyAction
    (.start ⟨4096, 0, 0, fun _ => 0⟩) oneEntryRun
    (fun s => s.ring.head = s.ring.tail ∧ s.ring.tail % s.ring.capacity + entrySize 1 ≤
      s.ring.capacity) (by decide +kernel)
  refine ⟨_, s, create_4096, run, empty, ?_⟩
  exact (empty_ring_accepts_iff create_4096 run .nil empty (by decide)).2
    ⟨by decide, .inl accepts⟩

/-- Nothing is unread, and a payload that would fill the region exactly is refused. -/
theorem empty_ring_refuses :
    ∃ m s, create 4096 = .ok m ∧
      Run step (fun s a => Current s a ∧ Fits s a ∧ Coherent s a) (.start m) oneEntryRun s ∧
      s.ring.head = s.ring.tail ∧
      alignUp (8 + (List.replicate 4088 (0 : UInt8)).length) ≤ m.capacity ∧
      append s.ring s.ring.head (List.replicate 4088 0) = .error .ringFull := by
  obtain ⟨s, run, refuses⟩ := Run.exists_of_exec step
    (fun s a => Current s a ∧ Fits s a ∧ Coherent s a) (.start ⟨4096, 0, 0, fun _ => 0⟩)
    oneEntryRun
    (fun s => s.ring.head = s.ring.tail ∧
      append s.ring s.ring.head (List.replicate 4088 0) = .error .ringFull) (by decide +kernel)
  exact ⟨_, s, create_4096, run, refuses.1, by rw [List.length_replicate]; decide, refuses.2⟩

/-! ## Room with a reserve -/

/-- The entry goes in before the end of the region, or what it skips there is free as well. -/
def FitsBehind (m : Mapping) (p : Bytes) : Prop :=
  p.length % 2 ^ 32 ≤ maxPayload ∧
    (m.tail % m.capacity + entrySize (p.length % 2 ^ 32) ≤ m.capacity ∨
      m.tail + (m.capacity - m.tail % m.capacity) + entrySize (p.length % 2 ^ 32) ≤
        m.head + m.capacity)

theorem Inv.append_isOk_iff {c : ℕ} {s : System} (inv : Inv c s) (p : Bytes) :
    (Ring.append s.ring s.ring.head p).isOk ↔ p.length % 2 ^ 32 ≤ maxPayload ∧
      entrySize (p.length % 2 ^ 32) ≤ s.ring.capacity ∧
      s.ring.tail + span s.ring.capacity s.ring.tail (p.length % 2 ^ 32) ≤
        s.ring.head + s.ring.capacity := by
  have used := inv.usedHead_le
  have tail_le := inv.tail_le
  exact Ring.append_isOk_iff inv.capacity_pos inv.dvd_capacity inv.capacity_lt inv.dvd_tail
    inv.tail_lt (inv.head_le.trans inv.usedTail_le) (by omega)

/-- There is room for `size` bytes and a reserve of 64 KiB.  A payload of at most `size` bytes is
accepted, wherever the consumer gets to in the meantime, exactly if its entry fits behind the tail;
the reserve makes it fit if `size` is not larger than the reserve less one header. -/
theorem Inv.reserve_appends_iff {c : ℕ} {s : System} (inv : Inv c s) {size : ℕ}
    (room : size + 65536 ≤ sub64 s.ring.capacity (sub64 s.ring.tail s.ring.head)) {p : Bytes}
    (short : p.length ≤ size) :
    ((∀ pops u, Run Ring.step (fun s a => Draining s a ∧ Current s a ∧ Coherent s a) s pops u →
        (Ring.append u.ring u.ring.head p).isOk) ↔ FitsBehind s.ring p) ∧
      (size ≤ 65528 → FitsBehind s.ring p) := by
  have head_le := inv.head_le.trans inv.usedTail_le
  have used := inv.usedHead_le
  have tail_le := inv.tail_le
  have capacity_lt := inv.capacity_lt
  rw [sub64_eq head_le inv.tail_lt, sub64_eq (by omega) (by omega)] at room
  have inside := Nat.mod_lt s.ring.tail inv.capacity_pos
  have len := Nat.mod_le p.length (2 ^ 32)
  have small : entrySize (p.length % 2 ^ 32) ≤ p.length % 2 ^ 32 + 15 := by
    unfold entrySize alignUp
    split_ifs <;> omega
  refine ⟨⟨fun appends => ?_, fun fits pops u run => ?_⟩, fun le => ?_⟩
  · obtain ⟨max, whole, free⟩ := (inv.append_isOk_iff p).1 (appends [] s .nil)
    refine ⟨max, ?_⟩
    unfold span at free
    split_ifs at free <;> omega
  · obtain ⟨inv', head, tail⟩ := inv_of_draining inv run
    have same : u.ring.capacity = s.ring.capacity := inv'.capacity.trans inv.capacity.symm
    rw [inv'.append_isOk_iff p, same, tail]
    refine ⟨fits.1, by omega, ?_⟩
    obtain ⟨-, fits⟩ := fits
    unfold span
    split_ifs <;> omega
  · have dvd := (Nat.dvd_mod_iff inv.dvd_capacity).2 inv.dvd_tail
    have dvd_capacity := inv.dvd_capacity
    have dvd_size := dvd_entrySize (p.length % 2 ^ 32)
    have dvd_head := inv.dvd_head
    have dvd_tail := inv.dvd_tail
    refine ⟨by unfold maxPayload; omega, ?_⟩
    omega

end OlricStack.Ring
