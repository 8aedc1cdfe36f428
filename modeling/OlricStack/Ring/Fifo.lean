import OlricStack.Lib.Run
import OlricStack.Ring.Layout

/-!
# The ring as a queue

A producer and a consumer share one ring.  An `Append` loads the head once and then carries out its
stores one at a time; the rounds of `Pop` come anywhere between them, each with the tail it loaded.
A loaded cursor may be out of date.  As long as a side does not go back behind the value with which
it last moved its own cursor, the ring is a first-in first-out queue (`ring_refines_fifo`); a `Pop`
that does go back runs past the tail (`stale_tail_repeats_payload`).
-/

namespace OlricStack.Ring

open ByteMemory Transition

/-! ## The shared ring -/

/-- The ring with the two parties that use it, and the record of what they have done. -/
structure System where
  ring : Mapping
  /-- every value the head has had, and every value the tail has had -/
  heads : List ℕ
  tails : List ℕ
  /-- the head loaded by the last `Append` that was not refused -/
  usedHead : ℕ
  /-- the tail loaded by the last round of `Pop` that moved the head -/
  usedTail : ℕ
  /-- the payload of the `Append` under way, with the stores it has still to do -/
  pending : Option (Bytes × List Store)
  /-- the `Pop` under way has passed a skip marker -/
  skipping : Bool
  /-- the payloads whose `Append` succeeded, each with the tail it stored -/
  appended : List (Bytes × ℕ)
  /-- the payloads returned by `Pop` -/
  returned : List Bytes

/-- Both processes have opened the ring and done nothing. -/
def System.start (m : Mapping) : System :=
  ⟨m, [m.head], [m.tail], m.head, m.tail, none, false, [], []⟩

/-- What the producer and the consumer do. -/
inductive Action
  /-- start an `Append` that loads `head` -/
  | append (head : ℕ) (payload : Bytes)
  /-- the next store of the `Append` under way -/
  | store
  /-- a round of `Pop` that loads `tail` -/
  | pop (tail : ℕ)
deriving DecidableEq, Repr

/-- One action of the producer or the consumer. -/
def step (s : System) : Action → Option System
  | .append head payload =>
    if s.pending.isSome then none
    else
      match append s.ring head payload with
      | .error _ => some s
      | .ok stores => some { s with usedHead := head, pending := some (payload, stores) }
  | .store =>
    match s.pending with
    | some (p, .bytes pos bs :: rest) =>
      some { s with ring := s.ring.store (.bytes pos bs), pending := some (p, rest) }
    | some (p, [.tail cursor]) =>
      some { s with
        ring := s.ring.store (.tail cursor), tails := cursor :: s.tails, pending := none,
        appended := s.appended ++ [(p, cursor)] }
    | _ => none
  | .pop tail =>
    match popRound s.ring tail with
    | .again head =>
      some { s with
        ring := s.ring.store (.head head), heads := head :: s.heads, usedTail := tail,
        skipping := true }
    | .done (.payload p) (some head) =>
      some { s with
        ring := s.ring.store (.head head), heads := head :: s.heads, usedTail := tail,
        skipping := false, returned := s.returned ++ [p] }
    | .done _ _ => some { s with skipping := false }

/-- The loaded cursor is one the other side has stored. -/
def Current (s : System) : Action → Prop
  | .append head _ => head ∈ s.heads
  | .store => True
  | .pop tail => tail ∈ s.tails

/-- Payload lengths are below `2 ^ 32 - 1` and the tail stays below `2 ^ 64`. -/
def Fits (s : System) : Action → Prop
  | .append head payload => payload.length < 2 ^ 32 - 1 ∧
      ((append s.ring head payload).isOk →
        s.ring.tail + span s.ring.capacity s.ring.tail payload.length < 2 ^ 64)
  | .store => True
  | .pop _ => True

/-- The loaded cursor is not older than the one this side last moved its own cursor with. -/
def Coherent (s : System) : Action → Prop
  | .append head _ => s.usedHead ≤ head
  | .store => True
  | .pop tail => s.usedTail ≤ tail

instance (s : System) (a : Action) : Decidable (Current s a) := by
  cases a <;> unfold Current <;> infer_instance

instance (s : System) (a : Action) : Decidable (Fits s a) := by
  cases a <;> unfold Fits <;> infer_instance

instance (s : System) (a : Action) : Decidable (Coherent s a) := by
  cases a <;> unfold Coherent <;> infer_instance

/-! ## What is promised of every state -/

/-- The unread region never exceeds the capacity, and the cursors are aligned. -/
def CursorsInRange (s : System) : Prop :=
  s.ring.head ≤ s.ring.tail ∧ s.ring.tail ≤ s.ring.head + s.ring.capacity ∧
    8 ∣ s.ring.head ∧ 8 ∣ s.ring.tail

/-- The next byte store of an `Append` under way stays inside the data region and off the unread
bytes. -/
def WritesFreeBytes (s : System) : Prop :=
  ∀ p pos bs rest, s.pending = some (p, .bytes pos bs :: rest) → ∀ i, i < bs.length →
    pos + i < s.ring.capacity ∧
      ∀ x, s.ring.head ≤ x → x < s.ring.tail → pos + i ≠ x % s.ring.capacity

/-- What a round of `Pop` that loads `tail` comes to: it reports empty when everything stored up to
that tail has been returned, or returns the next payload, or passes a skip marker, after which the
next round returns a payload. -/
def PopsNext (s : System) (tail : ℕ) : Prop :=
  match popRound s.ring tail with
  | .done .empty _ =>
      s.returned = (s.appended.filter (·.2 ≤ tail)).map Prod.fst ∧ s.skipping = false
  | .done (.payload p) stored =>
      s.returned ++ [p] <+: s.appended.map Prod.fst ∧ stored.isSome
  | .done (.error _) _ => False
  | .again _ => s.skipping = false

/-! ## The invariant -/

/-- The entries stored so far are those returned, which end at or before the head, followed by those
the unread region holds. -/
structure Split (s : System) (read unread : List (Bytes × ℕ)) : Prop where
  appended : s.appended = read ++ unread
  returned : read.map Prod.fst = s.returned
  behind : ∀ x ∈ read, x.2 ≤ s.ring.head
  queue : Queue s.ring.capacity s.ring.data s.ring.tail s.ring.head unread

/-- What the stores of the `Append` under way will still do. -/
def AppendUnderWay (s : System) : Prop :=
  ∀ p stores, s.pending = some (p, stores) → ∃ (body : List (ℕ × Bytes)) (next : ℕ),
    stores = body.map (fun b => .bytes b.1 b.2) ++ [.tail next] ∧
      InProgress s.ring.capacity s.ring.tail s.ring.data p body next ∧
      next ≤ s.usedHead + s.ring.capacity ∧ next < 2 ^ 64 ∧ 8 ∣ next

/-- What holds in every run of a ring of capacity `c`: the area between the cursors is the queue of
the unread payloads. -/
structure Inv (c : ℕ) (s : System) : Prop where
  capacity : s.ring.capacity = c
  capacity_pos : 0 < s.ring.capacity
  dvd_capacity : 8 ∣ s.ring.capacity
  capacity_lt : s.ring.capacity < 2 ^ 63
  dvd_head : 8 ∣ s.ring.head
  dvd_tail : 8 ∣ s.ring.tail
  tail_lt : s.ring.tail < 2 ^ 64
  heads_le : ∀ v ∈ s.heads, v ≤ s.ring.head
  tails_end : ∀ t ∈ s.tails, t = 0 ∨ ∃ x ∈ s.appended, x.2 = t
  usedHead_le : s.usedHead ≤ s.ring.head
  tail_le : s.ring.tail ≤ s.usedHead + s.ring.capacity
  head_le : s.ring.head ≤ s.usedTail
  usedTail_le : s.usedTail ≤ s.ring.tail
  skipped : s.skipping = true → s.ring.head % s.ring.capacity = 0 ∧ s.ring.head < s.usedTail
  split : ∃ read unread, Split s read unread
  underWay : AppendUnderWay s

/-- A tail that was stored lies before the current one, and a tail past the head is past the first
unread entry. -/
theorem Inv.tail_cases {c : ℕ} {s : System} (inv : Inv c s) {read unread : List (Bytes × ℕ)}
    (split : Split s read unread) {t : ℕ} (mem : t ∈ s.tails) (le : s.ring.head ≤ t) :
    t = s.ring.head ∨ ∃ x ∈ unread, x.2 = t := by
  rcases inv.tails_end t mem with rfl | ⟨x, hx, rfl⟩
  · exact .inl (by omega)
  · rw [split.appended, List.mem_append] at hx
    rcases hx with hx | hx
    · exact .inl (le_antisymm (split.behind x hx) le)
    · exact .inr ⟨x, hx, rfl⟩

theorem inv_start {m : Mapping} (head : m.head = 0) (tail : m.tail = 0) (pos : 0 < m.capacity)
    (dvd : 8 ∣ m.capacity) (lt : m.capacity < 2 ^ 63) : Inv m.capacity (.start m) where
  capacity := rfl
  capacity_pos := pos
  dvd_capacity := dvd
  capacity_lt := lt
  dvd_head := by simp [System.start, head]
  dvd_tail := by simp [System.start, tail]
  tail_lt := by simp [System.start, tail]
  heads_le := by simp [System.start]
  tails_end := by simp [System.start, tail]
  usedHead_le := le_rfl
  tail_le := by simp [System.start, head, tail]
  head_le := by simp [System.start, head, tail]
  usedTail_le := le_rfl
  skipped := by simp [System.start]
  split := ⟨[], [], ⟨rfl, rfl, by simp, by
    rw [show (System.start m).ring.tail = (System.start m).ring.head from tail.trans head.symm]
    exact .nil⟩⟩
  underWay := by simp [AppendUnderWay, System.start]

/-! ## Steps -/

variable {c : ℕ} {s u : System}

theorem Inv.append {head : ℕ} {payload : Bytes} {stores : List Store}
    (inv : Inv c s) (current : head ∈ s.heads) (fits : Fits s (.append head payload))
    (coherent : s.usedHead ≤ head) (ok : append s.ring head payload = .ok stores) :
    Inv c { s with usedHead := head, pending := some (payload, stores) } := by
  obtain ⟨read, unread, split⟩ := inv.split
  have hle := inv.heads_le head current
  have hq := split.queue.head_le
  have hbound := fits.2 (by rw [ok]; rfl)
  have htail := inv.tail_le
  have hlen := fits.1
  obtain ⟨hfree, body, hstores, hprogress⟩ := append_ok inv.capacity_pos inv.dvd_capacity
    inv.capacity_lt inv.dvd_tail inv.tail_lt (hle.trans hq) (by omega)
    (by unfold maxPayload; omega) hbound ok
  have hdvd := dvd_span inv.dvd_capacity inv.dvd_tail payload.length
  have hdvd_tail := inv.dvd_tail
  refine { inv with
    usedHead_le := hle
    tail_le := by simp only; omega
    split := ⟨read, unread, ⟨split.appended, split.returned, split.behind, split.queue⟩⟩
    underWay := ?_ }
  intro p stores' h
  obtain ⟨rfl, rfl⟩ := Prod.mk.inj (Option.some.inj h)
  exact ⟨body, _, hstores, hprogress, hfree, hbound, by omega⟩

/-- The bytes an `Append` under way writes lie between the tail it found and a capacity past the
head. -/
theorem Inv.writesFreeBytes (inv : Inv c s) : WritesFreeBytes s := by
  intro p pos bs rest pending i hi
  obtain ⟨body, next, hstores, progress, hnext, -⟩ := inv.underWay p _ pending
  have hused := inv.usedHead_le
  cases body with
  | nil => simp at hstores
  | cons b body =>
    obtain ⟨⟨rfl, rfl⟩, -⟩ : (pos = b.1 ∧ bs = b.2) ∧ _ := by simpa using hstores
    obtain ⟨y, hy, hlt, e⟩ := progress.region b List.mem_cons_self i hi
    rw [e]
    refine ⟨Nat.mod_lt y inv.capacity_pos, fun x hx hxt => ?_⟩
    exact (mod_ne_mod_of_lt (by omega) (by omega)).symm

theorem Inv.storeBytes {p bs : Bytes} {pos : ℕ} {rest : List Store} (inv : Inv c s)
    (pending : s.pending = some (p, .bytes pos bs :: rest)) :
    Inv c { s with ring := s.ring.store (.bytes pos bs), pending := some (p, rest) } := by
  obtain ⟨read, unread, split⟩ := inv.split
  obtain ⟨body, next, hstores, progress, bounds⟩ := inv.underWay p _ pending
  have free := inv.writesFreeBytes p pos bs rest pending
  refine { inv with
    split := ⟨read, unread, ⟨split.appended, split.returned, split.behind, ?_⟩⟩
    underWay := ?_ }
  · apply split.queue.congr inv.capacity_pos
    intro x hx hxt
    apply write_apply_of_ne
    intro i hi e
    exact (free i hi).2 x hx hxt e.symm
  · intro p' stores' h
    obtain ⟨rfl, rfl⟩ := Prod.mk.inj (Option.some.inj h)
    cases body with
    | nil => simp at hstores
    | cons b body =>
      obtain ⟨⟨rfl, rfl⟩, hrest⟩ : (pos = b.1 ∧ bs = b.2) ∧ _ := by simpa using hstores
      exact ⟨body, next, hrest, progress.store, bounds⟩

theorem Inv.storeTail {p : Bytes} {cursor : ℕ} (inv : Inv c s)
    (pending : s.pending = some (p, [.tail cursor])) :
    Inv c { s with
      ring := s.ring.store (.tail cursor), tails := cursor :: s.tails, pending := none,
      appended := s.appended ++ [(p, cursor)] } := by
  obtain ⟨read, unread, split⟩ := inv.split
  obtain ⟨body, next, hstores, progress, hnext, hlt, hdvd⟩ := inv.underWay p _ pending
  have hused := inv.usedTail_le
  cases body with
  | cons b body => simp at hstores
  | nil =>
    obtain rfl : cursor = next := by simpa using hstores
    have hle := progress.queue.head_le
    refine { inv with
      dvd_tail := hdvd
      tail_lt := hlt
      tails_end := ?_
      tail_le := hnext
      usedTail_le := hused.trans hle
      split := ⟨read, unread ++ [(p, cursor)], ⟨?_, split.returned, split.behind, ?_⟩⟩
      underWay := by simp [AppendUnderWay] }
    · intro t ht
      rcases List.mem_cons.1 ht with rfl | ht
      · exact .inr ⟨(p, t), by simp, rfl⟩
      · exact (inv.tails_end t ht).imp_right fun ⟨x, hx, e⟩ => ⟨x, List.mem_append_left _ hx, e⟩
    · simp [split.appended]
    · exact split.queue.append progress.queue

/-- What a round of `Pop` with a current and coherent tail does. -/
inductive PopSpec (s : System) (unread : List (Bytes × ℕ)) (t : ℕ) : PopRound → Prop
  | empty (drained : s.ring.head = t) : PopSpec s unread t (.done .empty none)
  | payload {p : Bytes} {e : ℕ} {q : List (Bytes × ℕ)} (first : unread = (p, e) :: q) (le : e ≤ t)
      (rest : Queue s.ring.capacity s.ring.data s.ring.tail e q) (dvd : 8 ∣ e)
      (lt : s.ring.head < e) : PopSpec s unread t (.done (.payload p) (some e))
  | again {mid : ℕ} (inside : s.ring.head % s.ring.capacity ≠ 0) (lap : mid % s.ring.capacity = 0)
      (lt : s.ring.head < mid) (lt_tail : mid < t) (dvd : 8 ∣ mid)
      (rest : Queue s.ring.capacity s.ring.data s.ring.tail mid unread) :
      PopSpec s unread t (.again mid)

theorem Inv.popRound_spec (inv : Inv c s) {read unread : List (Bytes × ℕ)}
    (split : Split s read unread) {t : ℕ} (current : t ∈ s.tails) (coherent : s.usedTail ≤ t) :
    PopSpec s unread t (popRound s.ring t) := by
  have hle := inv.head_le.trans coherent
  have hpos := inv.capacity_pos
  by_cases drained : s.ring.head = t
  · rw [show popRound s.ring t = .done .empty none by simp [popRound, drained]]
    exact .empty drained
  obtain ⟨x, hx, rfl⟩ := (inv.tail_cases split current hle).resolve_left (Ne.symm drained)
  have hfirst := split.queue.end_mem
  have htail := inv.tail_lt
  have hdvd := inv.dvd_head
  have hdvdc := inv.dvd_capacity
  obtain ⟨-, -, -, queue⟩ := split
  obtain ⟨h, hh⟩ : ∃ h, h = s.ring.head := ⟨_, rfl⟩
  rw [← hh] at queue
  -- a tail past the head is past the first unread entry
  cases queue with
  | nil => simp at hx
  | @entry _ p q small fits stored rest =>
    subst hh
    have hend := hfirst _ List.mem_cons_self
    have hs := dvd_entrySize p.length
    have hxe : s.ring.head + entrySize p.length ≤ x.2 :=
      (Queue.entry small fits stored rest).first_end_le x hx
    rw [popRound_entry drained hpos small fits stored (by simp only at hend; omega)]
    exact .payload rfl hxe rest (by omega) hend.1
  | @skip _ p q small room marker fits stored rest =>
    subst hh
    have hend := hfirst _ List.mem_cons_self
    have hs := le_entrySize p.length
    have hlap := add_sub_mod hpos s.ring.head
    have hxe : s.ring.head + (s.ring.capacity - s.ring.head % s.ring.capacity) +
        entrySize p.length ≤ x.2 :=
      (Queue.skip small room marker fits stored rest).first_end_le x hx
    have hdvdm : 8 ∣ s.ring.head % s.ring.capacity := (Nat.dvd_mod_iff hdvdc).2 hdvd
    simp only at hend
    rw [popRound_skip drained hpos room marker (by omega)]
    refine .again ?_ hlap (by omega) (by omega) (by omega) (.entry small ?_ ?_ rest)
    · -- at the start of the region there would be an entry, not a marker
      intro h
      rw [h, stored.len] at marker
      unfold skipMarker at marker
      unfold maxPayload at small
      omega
    · rw [hlap]
      omega
    · rw [hlap]
      exact stored

/-- A round that moves the head forward, but not past the tail it loaded, keeps the invariant. -/
theorem Inv.moveHead (inv : Inv c s) {t head : ℕ} {skipping : Bool} {returned : List Bytes}
    {read unread : List (Bytes × ℕ)} (current : t ∈ s.tails) (coherent : s.usedTail ≤ t)
    (lt : s.ring.head < head) (le : head ≤ t) (dvd : 8 ∣ head)
    (skipped : skipping = true → head % s.ring.capacity = 0 ∧ head < t)
    (split : Split { s with ring := s.ring.store (.head head), returned := returned } read unread) :
    Inv c { s with
      ring := s.ring.store (.head head), heads := head :: s.heads, usedTail := t,
      skipping := skipping, returned := returned } := by
  obtain ⟨read', unread', split'⟩ := inv.split
  have hhead := inv.head_le
  have hused := inv.usedHead_le
  have hle : t ≤ s.ring.tail := by
    rcases inv.tail_cases split' current (by omega) with rfl | ⟨x, hx, rfl⟩
    · exact split'.queue.head_le
    · exact (split'.queue.end_mem x hx).2
  refine { inv with
    dvd_head := dvd
    heads_le := ?_
    usedHead_le := hused.trans lt.le
    head_le := le
    usedTail_le := hle
    skipped := skipped
    split := ⟨read, unread, ⟨split.appended, split.returned, split.behind, split.queue⟩⟩
    underWay := inv.underWay }
  intro v hv
  rcases List.mem_cons.1 hv with rfl | hv
  · exact le_rfl
  · exact (inv.heads_le v hv).trans lt.le

theorem Inv.pop (inv : Inv c s) {t : ℕ} (current : t ∈ s.tails) (coherent : s.usedTail ≤ t)
    (enabled : step s (.pop t) = some u) : Inv c u := by
  obtain ⟨read, unread, split⟩ := inv.split
  have spec := inv.popRound_spec split current coherent
  simp only [step] at enabled
  generalize popRound s.ring t = round at spec enabled
  cases spec with
  | empty _ =>
    cases enabled
    refine { inv with skipped := by simp, split := ⟨read, unread, ?_⟩, underWay := inv.underWay }
    exact ⟨split.appended, split.returned, split.behind, split.queue⟩
  | @payload p e q first le rest dvd lt =>
    cases enabled
    refine inv.moveHead current coherent lt le dvd (by simp)
      (show Split _ (read ++ [(p, e)]) q from ⟨?_, ?_, ?_, rest⟩)
    · simp [split.appended, first]
    · simp [split.returned]
    · intro x hx
      rcases List.mem_append.1 hx with hx | hx
      · exact (split.behind x hx).trans lt.le
      · rw [List.mem_singleton.1 hx]
        exact le_rfl
  | @again mid _ lap lt lt_tail dvd rest =>
    cases enabled
    exact inv.moveHead current coherent lt lt_tail.le dvd (fun _ => ⟨lap, lt_tail⟩)
      ⟨split.appended, split.returned, fun x hx => (split.behind x hx).trans lt.le, rest⟩

theorem Inv.step {a : Action} (inv : Inv c s) (current : Current s a) (fits : Fits s a)
    (coherent : Coherent s a) (enabled : step s a = some u) : Inv c u := by
  cases a with
  | append head payload =>
    simp only [Ring.step] at enabled
    split_ifs at enabled
    split at enabled
    · cases enabled
      exact inv
    · next ok =>
      cases enabled
      exact inv.append current fits coherent ok
  | store =>
    simp only [Ring.step] at enabled
    split at enabled
    · next pending =>
      cases enabled
      exact inv.storeBytes pending
    · next pending =>
      cases enabled
      exact inv.storeTail pending
    · cases enabled
  | pop t => exact inv.pop current coherent enabled

theorem Inv.popsNext (inv : Inv c s) {t : ℕ} (current : t ∈ s.tails)
    (coherent : s.usedTail ≤ t) : PopsNext s t := by
  obtain ⟨read, unread, split⟩ := inv.split
  have spec := inv.popRound_spec split current coherent
  have hhead := inv.head_le
  unfold PopsNext
  generalize popRound s.ring t = round at spec
  cases spec with
  | empty drained =>
    refine ⟨?_, ?_⟩
    · have hread : read.filter (·.2 ≤ t) = read :=
        List.filter_eq_self.2 fun x hx => by simpa [← drained] using split.behind x hx
      have hunread : unread.filter (·.2 ≤ t) = [] :=
        List.filter_eq_nil_iff.2 fun x hx => by
          simpa [← drained] using (split.queue.end_mem x hx).1
      rw [split.appended, List.filter_append, hread, hunread, List.append_nil, split.returned]
    · by_contra skipping
      have := (inv.skipped (by simpa using skipping)).2
      omega
  | @payload p e q first le rest dvd lt =>
    refine ⟨⟨q.map Prod.fst, ?_⟩, rfl⟩
    simp [split.appended, split.returned, first]
  | again inside _ _ _ _ _ =>
    by_contra skipping
    exact inside (inv.skipped (by simpa using skipping)).1

/-! ## Created rings -/

/-- The file size of a capacity that `Create` accepts is a signed 64-bit number. -/
theorem fileSize_lt_of_total {k : ℕ} (lt : k < 2 ^ 64)
    (total : ¬((headerSize + k : ℕ) : ℤ).bmod (2 ^ 64) < headerSize) :
    headerSize + k < 2 ^ 63 := by
  by_contra large
  simp only [headerSize] at total large
  simp only [Int.bmod] at total
  have h : ((64 + k : ℕ) : ℤ) % ((2 ^ 64 : ℕ) : ℤ) = ((64 + k) % 2 ^ 64 : ℕ) := rfl
  rw [h] at total
  split_ifs at total <;> omega

/-- A created ring is empty; its capacity is a multiple of 8 of at least `minCapacity`, unless the
requested one was so large that rounding it up wrapped around to zero. -/
theorem create_ok {n : UInt64} {m : Mapping} (created : create n = .ok m) :
    m.head = 0 ∧ m.tail = 0 ∧ 8 ∣ m.capacity ∧ m.capacity < 2 ^ 63 ∧
      (m.capacity = 0 ∨ minCapacity ≤ m.capacity) := by
  have hn := n.toNat_lt
  simp only [create] at created
  split_ifs at created with below large negative small negative small
  · obtain rfl := Except.ok.inj created
    have size := fileSize_lt_of_total (Nat.mod_lt _ (by decide)) small
    refine ⟨rfl, rfl, ?_⟩
    simp only [add64] at size ⊢
    exact ⟨by omega, by omega, by omega⟩
  · obtain rfl := Except.ok.inj created
    have size := fileSize_lt_of_total hn small
    refine ⟨rfl, rfl, ?_⟩
    dsimp only
    exact ⟨by omega, by omega, by omega⟩

/-- The coherent runs from a created ring keep the invariant. -/
theorem inv_of_run {n : UInt64} {m : Mapping} (created : create n = .ok m)
    (capacity : minCapacity ≤ m.capacity) {as : List Action}
    (run : Run step (fun s a => Current s a ∧ Fits s a ∧ Coherent s a) (.start m) as s) :
    Inv m.capacity s := by
  obtain ⟨head, tail, dvd, lt, -⟩ := create_ok created
  have hpos : 0 < m.capacity := Nat.lt_of_lt_of_le (by decide) capacity
  apply run.invariant (Inv m.capacity) (inv_start head tail hpos dvd lt)
  intro t a u inv allowed enabled
  exact inv.step allowed.1 allowed.2.1 allowed.2.2 enabled

/-- In every state of a run in which no side loads a cursor older than the one it last moved its own
cursor with, the ring is a queue: cursors in range, no store to unread bytes, payloads returned in
the order of their `Append`s, and every round of `Pop` answering for the tail it loaded. -/
theorem ring_refines_fifo {n : UInt64} {m : Mapping} (created : create n = .ok m)
    (capacity : minCapacity ≤ m.capacity) {as : List Action} {s : System}
    (run : Run step (fun s a => Current s a ∧ Fits s a ∧ Coherent s a) (.start m) as s) :
    s.ring.capacity = m.capacity ∧ 8 ∣ m.capacity ∧ CursorsInRange s ∧ WritesFreeBytes s ∧
      s.returned <+: s.appended.map Prod.fst ∧
      ∀ tail ∈ s.tails, s.usedTail ≤ tail → PopsNext s tail := by
  have inv := inv_of_run created capacity run
  obtain ⟨read, unread, split⟩ := inv.split
  have hused := inv.usedHead_le
  have htail := inv.tail_le
  refine ⟨inv.capacity, inv.capacity ▸ inv.dvd_capacity, ?_, inv.writesFreeBytes, ?_, ?_⟩
  · exact ⟨split.queue.head_le, by omega, inv.dvd_head, inv.dvd_tail⟩
  · rw [split.appended, List.map_append, split.returned]
    exact List.prefix_append _ _
  · intro tail current coherent
    exact inv.popsNext current coherent

/-- Two appends and two pops on a ring of 4096 bytes, the first `Pop` coming between the stores of
the second `Append`. -/
def overlappingRun : List Action :=
  [.append 0 [7], .store, .store, .store, .store, .append 0 [], .store, .pop 16, .store, .store,
    .store, .pop 24]

theorem create_4096 : create 4096 = .ok ⟨4096, 0, 0, fun _ => 0⟩ := by
  simp [create, minCapacity, headerSize, Int.bmod]

theorem ring_refines_fifo_overlapping :
    ∃ m s, create 4096 = .ok m ∧ minCapacity ≤ m.capacity ∧
      Run step (fun s a => Current s a ∧ Fits s a ∧ Coherent s a) (.start m) overlappingRun s ∧
      s.returned = [[7], []] ∧ CursorsInRange s := by
  obtain ⟨s, run, returned⟩ := Run.exists_of_exec step
    (fun s a => Current s a ∧ Fits s a ∧ Coherent s a) (.start ⟨4096, 0, 0, fun _ => 0⟩)
    overlappingRun (fun s => s.returned = [[7], []]) (by decide +kernel)
  have refines := ring_refines_fifo create_4096 (by decide) run
  exact ⟨_, s, create_4096, by decide, run, returned, refines.2.2.1⟩

/-- A `Pop` that loads a tail behind the head it has itself stored runs past the tail: on a ring
that was never written beyond one empty payload, it returns a payload nobody appended. -/
theorem stale_tail_repeats_payload :
    ∃ m s, create 4096 = .ok m ∧ minCapacity ≤ m.capacity ∧
      Run step (fun s a => Current s a ∧ Fits s a) (.start m)
        [.append 0 [], .store, .store, .store, .store, .pop 8, .pop 0] s ∧
      ¬s.returned <+: s.appended.map Prod.fst ∧ s.ring.tail < s.ring.head := by
  obtain ⟨s, run, ends⟩ := Run.exists_of_exec step
    (fun s a => Current s a ∧ Fits s a) (.start ⟨4096, 0, 0, fun _ => 0⟩)
    [.append 0 [], .store, .store, .store, .store, .pop 8, .pop 0]
    (fun s => ¬s.returned <+: s.appended.map Prod.fst ∧ s.ring.tail < s.ring.head)
    (by decide +kernel)
  exact ⟨_, s, create_4096, by decide, run, ends⟩

end OlricStack.Ring
