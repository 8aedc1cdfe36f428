import OlricStack.Ring.Model

/-!
# What the unread region holds

`Queue c data t h q` says that the bytes between the cursors `h` and `t` hold the entries `q`, each
with the cursor at which it ends: entries that do not cross the end of the region, and skip markers
before an entry that would have.  The layout depends only on the bytes it covers (`Queue.congr`),
`Append` extends it at the tail (`queue_append`) and `Pop` takes its first entry (`pop_of_queue`).
-/

namespace OlricStack.Ring

open ByteMemory

/-! ## Sizes -/

theorem le_alignUp (n : ℕ) : n ≤ alignUp n := by
  unfold alignUp
  split_ifs <;> omega

theorem dvd_alignUp (n : ℕ) : 8 ∣ alignUp n := by
  unfold alignUp
  split_ifs <;> omega

/-- The bytes taken by an entry with `len` payload bytes. -/
def entrySize (len : ℕ) : ℕ := alignUp (8 + len)

theorem le_entrySize (len : ℕ) : 8 + len ≤ entrySize len := le_alignUp _

theorem dvd_entrySize (len : ℕ) : 8 ∣ entrySize len := dvd_alignUp _

/-- The bytes an `Append` of `len` payload bytes takes at cursor `tail`, the skipped end of the
region included. -/
def span (c tail len : ℕ) : ℕ :=
  if c - tail % c < entrySize len then c - tail % c + entrySize len else entrySize len

theorem dvd_span {c tail : ℕ} (hc : 8 ∣ c) (ht : 8 ∣ tail) (len : ℕ) : 8 ∣ span c tail len := by
  have hp : 8 ∣ tail % c := (Nat.dvd_mod_iff hc).2 ht
  have hs := dvd_entrySize len
  unfold span
  split_ifs <;> omega

/-- A position aligned to 8 leaves room for a skip marker before the end. -/
theorem room_of_dvd {c x : ℕ} (pos : 0 < c) (hc : 8 ∣ c) (hx : 8 ∣ x) : x % c + 8 ≤ c := by
  have hp : 8 ∣ x % c := (Nat.dvd_mod_iff hc).2 hx
  have hlt := Nat.mod_lt x pos
  omega

/-! ## Entries -/

/-- An entry with payload `p` is stored at `pos`. -/
structure EntryAt (data : Memory) (pos : ℕ) (p : Bytes) : Prop where
  len : readWord data pos = p.length
  crc : readWord data (pos + 4) = crc32 p
  body : read data (pos + 8) p.length = p

theorem EntryAt.congr {data data' : Memory} {pos : ℕ} {p : Bytes} (h : EntryAt data pos p)
    (same : ∀ i, i < 8 + p.length → data' (pos + i) = data (pos + i)) : EntryAt data' pos p where
  len := by
    rw [readWord_congr (fun i hi => same i (by omega)), h.len]
  crc := by
    rw [readWord_congr (fun i hi => ?_), h.crc]
    simpa only [Nat.add_assoc] using same (4 + i) (by omega)
  body := by
    rw [read_congr (fun i hi => ?_), h.body]
    simpa only [Nat.add_assoc] using same (8 + i) (by omega)

/-- The three stores of an entry leave it in the data region. -/
theorem entryAt_store (data : Memory) (pos : ℕ) (p : Bytes) (small : p.length < 2 ^ 32) :
    EntryAt (write (write (write data pos (le32 p.length)) (pos + 4) (le32 (crc32 p))) (pos + 8) p)
      pos p where
  len := by
    rw [readWord_write_disjoint _ _ (by omega), readWord_write_disjoint _ _ (by omega),
      readWord_write_le32 _ _ small]
  crc := by
    rw [readWord_write_disjoint _ _ (by omega), readWord_write_le32 _ _ (crc32_lt p)]
  body := read_write_self _ _ _

/-! ## The unread region -/

/-- The bytes from cursor `h` to cursor `t` hold the entries `q`, each given with its end. -/
inductive Queue (c : ℕ) (data : Memory) (t : ℕ) : ℕ → List (Bytes × ℕ) → Prop
  | nil : Queue c data t t []
  | entry {h : ℕ} {p : Bytes} {q : List (Bytes × ℕ)} (small : p.length ≤ maxPayload)
      (fits : h % c + entrySize p.length ≤ c) (stored : EntryAt data (h % c) p)
      (rest : Queue c data t (h + entrySize p.length) q) :
      Queue c data t h ((p, h + entrySize p.length) :: q)
  | skip {h : ℕ} {p : Bytes} {q : List (Bytes × ℕ)} (small : p.length ≤ maxPayload)
      (room : h % c + 8 ≤ c) (marker : readWord data (h % c) = skipMarker)
      (fits : entrySize p.length ≤ c) (stored : EntryAt data 0 p)
      (rest : Queue c data t (h + (c - h % c) + entrySize p.length) q) :
      Queue c data t h ((p, h + (c - h % c) + entrySize p.length) :: q)

namespace Queue

variable {c t t' h : ℕ} {data data' : Memory} {q q' : List (Bytes × ℕ)}

theorem head_le (hq : Queue c data t h q) : h ≤ t := by
  induction hq with
  | nil => exact le_rfl
  | entry _ _ _ _ ih => omega
  | skip _ _ _ _ _ _ ih => omega

/-- An entry in front of those that end after it. -/
theorem ends_cons {p : Bytes} {e : ℕ} (after : h < e) (inside : e ≤ t)
    (rest : ∀ x ∈ q, e < x.2 ∧ x.2 ≤ t) : ∀ x ∈ (p, e) :: q, h < x.2 ∧ x.2 ≤ t := by
  intro x hx
  rcases List.mem_cons.1 hx with rfl | hx
  · exact ⟨after, inside⟩
  · exact ⟨after.trans (rest x hx).1, (rest x hx).2⟩

/-- Every entry ends after the head and not after the tail. -/
theorem end_mem (hq : Queue c data t h q) : ∀ x ∈ q, h < x.2 ∧ x.2 ≤ t := by
  induction hq with
  | nil => simp
  | @entry h p q _ _ _ rest ih =>
    have hs := le_entrySize p.length
    exact ends_cons (by omega) rest.head_le ih
  | @skip h p q _ _ _ _ _ rest ih =>
    have hs := le_entrySize p.length
    exact ends_cons (by omega) rest.head_le ih

/-- The first entry ends first. -/
theorem first_end_le {x : Bytes × ℕ} (hq : Queue c data t h (x :: q)) :
    ∀ y ∈ x :: q, x.2 ≤ y.2 := by
  intro y hy
  rcases List.mem_cons.1 hy with rfl | later
  · exact le_rfl
  · cases hq with
    | entry _ _ _ rest => exact (rest.end_mem y later).1.le
    | skip _ _ _ _ _ rest => exact (rest.end_mem y later).1.le

/-- The layout depends only on the bytes between the cursors. -/
theorem congr (pos : 0 < c) (hq : Queue c data t h q)
    (same : ∀ x, h ≤ x → x < t → data' (x % c) = data (x % c)) : Queue c data' t h q := by
  induction hq with
  | nil => exact .nil
  | @entry h p q small fits stored rest ih =>
    have hs := le_entrySize p.length
    have hle := rest.head_le
    refine .entry small fits (stored.congr fun i hi => ?_) (ih fun x hx => same x (by omega))
    rw [← add_mod_of_lt (by omega)]
    exact same (h + i) (by omega) (by omega)
  | @skip h p q small room marker fits stored rest ih =>
    have hs := le_entrySize p.length
    have hle := rest.head_le
    refine .skip small room ?_ fits (stored.congr fun i hi => ?_) (ih fun x hx => same x (by omega))
    · rw [readWord_congr (fun i hi => ?_), marker]
      rw [← add_mod_of_lt (by omega)]
      exact same (h + i) (by omega) (by omega)
    · -- the entry after the marker sits at the start of the region
      have e : (h + (c - h % c) + i) % c = 0 + i := by
        have hz := add_sub_mod pos h
        rw [add_mod_of_lt (by omega), hz]
      rw [← e]
      exact same _ (by omega) (by omega)

theorem append (hq : Queue c data t h q) (hq' : Queue c data t' t q') :
    Queue c data t' h (q ++ q') := by
  induction hq with
  | nil => exact hq'
  | entry small fits stored _ ih => exact .entry small fits stored ih
  | skip small room marker fits stored _ ih => exact .skip small room marker fits stored ih

end Queue

/-! ## Append -/

/-- Carry out byte stores in order. -/
def writeAll (data : Memory) (body : List (ℕ × Bytes)) : Memory :=
  body.foldl (fun d b => write d b.1 b.2) data

/-- The byte stores `body` are what an `Append` of `p` has still to do before it moves the tail to
`next`: they stay inside the cursors it takes, and leave the entry there. -/
structure InProgress (c tail : ℕ) (data : Memory) (p : Bytes) (body : List (ℕ × Bytes))
    (next : ℕ) : Prop where
  region : ∀ b ∈ body, ∀ i, i < b.2.length → ∃ x, tail ≤ x ∧ x < next ∧ b.1 + i = x % c
  queue : Queue c (writeAll data body) next tail [(p, next)]

theorem InProgress.store {c tail next : ℕ} {data : Memory} {p : Bytes} {b : ℕ × Bytes}
    {body : List (ℕ × Bytes)} (h : InProgress c tail data p (b :: body) next) :
    InProgress c tail (write data b.1 b.2) p body next where
  region b' hb' := h.region b' (List.mem_cons_of_mem _ hb')
  queue := h.queue

/-- The byte stores of an entry at `pos`. -/
def entryBody (pos : ℕ) (p : Bytes) : List (ℕ × Bytes) :=
  [(pos, le32 p.length), (pos + 4, le32 (crc32 p)), (pos + 8, p)]

theorem entryStores_eq (pos : ℕ) (p : Bytes) :
    entryStores pos p.length p = (entryBody pos p).map fun b => .bytes b.1 b.2 := by
  simp [entryStores, entryBody]

/-- Every byte of an entry lies in the block the entry takes. -/
theorem entryBody_region {pos : ℕ} {p : Bytes} {b : ℕ × Bytes} (hb : b ∈ entryBody pos p) {i : ℕ}
    (hi : i < b.2.length) : ∃ j, j < entrySize p.length ∧ b.1 + i = pos + j := by
  have hs := le_entrySize p.length
  simp only [entryBody, List.mem_cons, List.not_mem_nil, or_false] at hb
  rcases hb with rfl | rfl | rfl
  · simp only [length_le32] at hi
    exact ⟨i, by omega, rfl⟩
  · simp only [length_le32] at hi
    exact ⟨4 + i, by omega, by simp only; omega⟩
  · exact ⟨8 + i, by simp only at hi; omega, by simp only; omega⟩

variable {c tail : ℕ}

/-- An entry that ends before the end of the region. -/
theorem inProgress_entry (data : Memory) {p : Bytes} (small : p.length ≤ maxPayload)
    (fits : tail % c + entrySize p.length ≤ c) :
    InProgress c tail data p (entryBody (tail % c) p) (tail + entrySize p.length) where
  region b hb i hi := by
    obtain ⟨j, hj, e⟩ := entryBody_region hb hi
    refine ⟨tail + j, by omega, by omega, ?_⟩
    rw [e, add_mod_of_lt (by omega)]
  queue := by
    have hp : p.length < 2 ^ 32 := by unfold maxPayload at small; omega
    exact .entry small fits (entryAt_store data _ p hp) .nil

/-- An entry moved to the start of the region, after a skip marker. -/
theorem inProgress_skip (pos : 0 < c) (data : Memory) {p : Bytes} (small : p.length ≤ maxPayload)
    (room : tail % c + 8 ≤ c) (apart : entrySize p.length ≤ tail % c) :
    InProgress c tail data p
      ((tail % c, le32 skipMarker) :: (tail % c + 4, le32 0) :: entryBody 0 p)
      (tail + (c - tail % c) + entrySize p.length) where
  region b hb i hi := by
    have hs := le_entrySize p.length
    simp only [List.mem_cons] at hb
    rcases hb with rfl | rfl | hb
    · simp only [length_le32] at hi
      exact ⟨tail + i, by omega, by omega, (add_mod_of_lt (by omega)).symm⟩
    · simp only [length_le32] at hi
      refine ⟨tail + (4 + i), by omega, by omega, ?_⟩
      rw [add_mod_of_lt (by omega), ← Nat.add_assoc]
    · obtain ⟨j, hj, e⟩ := entryBody_region hb hi
      have hz := add_sub_mod pos tail
      refine ⟨tail + (c - tail % c) + j, by omega, by omega, ?_⟩
      rw [e, add_mod_of_lt (by omega), hz]
  queue := by
    have hp : p.length < 2 ^ 32 := by unfold maxPayload at small; omega
    have hs := le_entrySize p.length
    refine .skip small room ?_ (by omega) (entryAt_store _ _ p hp) .nil
    -- the entry is written below the marker, so the marker survives
    simp only [writeAll, entryBody, List.foldl_cons, List.foldl_nil]
    rw [readWord_write_disjoint _ _ (by omega), readWord_write_disjoint _ _ (by simp; omega),
      readWord_write_disjoint _ _ (by simp; omega), readWord_write_disjoint _ _ (by omega),
      readWord_write_le32 _ _ (by decide)]

theorem add64_eq {a b : ℕ} (h : a + b < 2 ^ 64) : add64 a b = a + b := Nat.mod_eq_of_lt h

theorem add64_lt (a b : ℕ) : add64 a b < 2 ^ 64 := Nat.mod_lt _ (by decide)

theorem sub64_eq {a b : ℕ} (hb : b ≤ a) (ha : a < 2 ^ 64) : sub64 a b = a - b := by
  unfold sub64
  rw [show a + (2 ^ 64 - b) = a - b + 2 ^ 64 by omega, Nat.add_mod_right,
    Nat.mod_eq_of_lt (by omega)]

/-- A successful `Append` takes `span` bytes that the head it loaded leaves free. -/
theorem append_ok {m : Mapping} {head : ℕ} {p : Bytes} {stores : List Store} (pos : 0 < m.capacity)
    (dvd_capacity : 8 ∣ m.capacity) (capacity_lt : m.capacity < 2 ^ 63) (dvd_tail : 8 ∣ m.tail)
    (tail_lt : m.tail < 2 ^ 64) (head_le : head ≤ m.tail) (tail_le : m.tail ≤ head + m.capacity)
    (small : p.length ≤ maxPayload) (bound : m.tail + span m.capacity m.tail p.length < 2 ^ 64)
    (ok : append m head p = .ok stores) :
    m.tail + span m.capacity m.tail p.length ≤ head + m.capacity ∧
      ∃ body : List (ℕ × Bytes), stores = body.map (fun b => .bytes b.1 b.2) ++
          [.tail (m.tail + span m.capacity m.tail p.length)] ∧
        InProgress m.capacity m.tail m.data p body
          (m.tail + span m.capacity m.tail p.length) := by
  have hlen : p.length % 2 ^ 32 = p.length := by
    unfold maxPayload at small
    exact Nat.mod_eq_of_lt (by omega)
  have hfree : sub64 m.capacity (sub64 m.tail head) = m.capacity - (m.tail - head) := by
    rw [sub64_eq head_le tail_lt, sub64_eq (by omega) (by omega)]
  have room := room_of_dvd pos dvd_capacity dvd_tail
  have hlt := Nat.mod_lt m.tail pos
  have hsize : alignUp (8 + p.length) = entrySize p.length := rfl
  simp only [append, hlen, hfree, entryStores_eq, hsize] at ok
  rw [if_neg (by omega)] at ok
  split_ifs at ok with big skip full _ full
  · obtain rfl := Except.ok.inj ok
    rw [span, if_pos skip] at bound ⊢
    rw [add64_eq (by omega)] at full
    rw [add64_eq (show m.tail + (m.capacity - m.tail % m.capacity) < 2 ^ 64 by omega),
      add64_eq (by omega), ← Nat.add_assoc]
    exact ⟨by omega, _, rfl, inProgress_skip pos m.data small room (by omega)⟩
  · obtain rfl := Except.ok.inj ok
    rw [span, if_neg skip] at bound ⊢
    rw [add64_eq bound]
    exact ⟨by omega, _, rfl, inProgress_entry m.data small (by omega)⟩

/-! ## Pop -/

/-- A round of `Pop` that finds an entry returns it. -/
theorem popRound_entry {m : Mapping} {t : ℕ} {p : Bytes} (ne : m.head ≠ t) (pos : 0 < m.capacity)
    (small : p.length ≤ maxPayload) (fits : m.head % m.capacity + entrySize p.length ≤ m.capacity)
    (stored : EntryAt m.data (m.head % m.capacity) p)
    (bound : m.head + entrySize p.length < 2 ^ 64) :
    popRound m t = .done (.payload p) (some (m.head + entrySize p.length)) := by
  have hs := le_entrySize p.length
  have hsize : alignUp (8 + p.length) = entrySize p.length := rfl
  have hskip : p.length ≠ skipMarker := by
    unfold maxPayload at small
    unfold skipMarker
    omega
  simp only [popRound, stored.len, stored.crc, stored.body, hsize]
  rw [if_neg ne, if_neg (by omega), if_neg (by omega), if_neg hskip, if_neg (by omega),
    if_neg (by omega), if_neg (by simp), add64_eq bound]

/-- A round of `Pop` that finds a marker moves the head to the start of the next lap. -/
theorem popRound_skip {m : Mapping} {t : ℕ} (ne : m.head ≠ t) (pos : 0 < m.capacity)
    (room : m.head % m.capacity + 8 ≤ m.capacity)
    (marker : readWord m.data (m.head % m.capacity) = skipMarker)
    (bound : m.head + (m.capacity - m.head % m.capacity) < 2 ^ 64) :
    popRound m t = .again (m.head + (m.capacity - m.head % m.capacity)) := by
  simp only [popRound]
  rw [if_neg ne, if_neg (by omega), if_neg (by omega), if_pos marker, add64_eq bound]

end OlricStack.Ring
