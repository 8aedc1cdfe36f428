import OlricStack.Ring.Fifo

/-!
# Stopping in the middle

The ring outlives the processes that use it: when one of them stops, the file keeps what it had
stored by then, the last store perhaps in part, and the next process opens it as it is.  `crashStep`
adds such stops to the steps of the ring.  What a consumer finds that opens the ring at any moment
and takes everything out (`drain`) changes at one store of each `Append` and each `Pop`, and at no
stop (`ring_crash_atomic`).  A payload of `2 ^ 32` bytes or more is the exception: `Append` cuts its
length and then it cannot be found (`cut_payload_is_not_found`).
-/

namespace OlricStack.Ring

open ByteMemory Transition

/-! ## Files -/

/-- The first word of a ring file. -/
def magic : ℕ := 0x4F524E47

/-- The version of the layout. -/
def version : ℕ := 1

/-- A ring file: its size, the words of the header, and the data region. -/
structure File where
  size : ℤ
  magic : ℕ
  version : ℕ
  capacity : ℕ
  head : ℕ
  tail : ℕ
  data : Memory

/-- Why `openMapping` refuses a file, with the values its messages give. -/
inductive MappingError
  | fileTooSmall (size : ℤ)
  | badMagic (magic : ℕ)
  | unsupportedVersion (version : ℕ)
  | sizeMismatch (expected size : ℤ)
deriving DecidableEq, Repr

/-- `openMapping`, with its checks of the header. -/
def openMapping (f : File) : Except MappingError Mapping :=
  if f.size < headerSize then .error (.fileTooSmall f.size)
  else if f.magic ≠ Ring.magic then .error (.badMagic f.magic)
  else if f.version ≠ Ring.version then .error (.unsupportedVersion f.version)
  else
    let expected := ((headerSize + f.capacity : ℕ) : ℤ).bmod (2 ^ 64)
    if expected ≠ f.size then .error (.sizeMismatch expected f.size)
    else .ok ⟨f.capacity, f.head, f.tail, f.data⟩

/-- The file under a mapping.  Neither side stores anything to the first three words. -/
def Mapping.file (m : Mapping) : File :=
  ⟨headerSize + m.capacity, Ring.magic, Ring.version, m.capacity, m.head, m.tail, m.data⟩

theorem openMapping_file {m : Mapping} (small : headerSize + m.capacity < 2 ^ 63) :
    openMapping m.file = .ok m := by
  have expected : ((headerSize + m.capacity : ℕ) : ℤ).bmod (2 ^ 64) =
      (headerSize : ℤ) + m.capacity := by
    rw [Int.bmod_eq_of_le (by omega) (by omega), Int.natCast_add]
  unfold openMapping Mapping.file
  rw [if_neg (by dsimp only; omega), if_neg (by simp), if_neg (by simp)]
  dsimp only
  rw [expected, if_neg (by simp)]

/-- The file size of a created ring is a signed 64-bit number. -/
theorem fileSize_of_create {n : UInt64} {m : Mapping} (created : create n = .ok m) :
    headerSize + m.capacity < 2 ^ 63 := by
  have hn := n.toNat_lt
  simp only [create] at created
  split_ifs at created with below large negative small negative small
  · obtain rfl := Except.ok.inj created
    exact fileSize_lt_of_total (Nat.mod_lt _ (by decide)) small
  · obtain rfl := Except.ok.inj created
    exact fileSize_lt_of_total hn small

/-! ## Stops -/

/-- The actions of the ring, and the ends of its two processes. -/
inductive CrashAction
  | op (a : Action)
  /-- the producer stops when it has done `k` bytes of its next store, and the ring is opened
  again -/
  | producer (k : ℕ)
  /-- the consumer stops between two stores, and the ring is opened again -/
  | consumer
deriving DecidableEq, Repr

/-- What a producer leaves that stops `k` bytes into its next store.  The store of a cursor is
atomic. -/
def System.torn (s : System) (k : ℕ) : Mapping :=
  match s.pending with
  | some (_, .bytes pos bs :: _) => s.ring.store (.bytes pos (bs.take k))
  | _ => s.ring

/-- One action; a process that has stopped opens the ring again. -/
def crashStep (s : System) : CrashAction → Option System
  | .op a => step s a
  | .producer k =>
    (openMapping (s.torn k).file).toOption.map fun ring =>
      { s with ring := ring, pending := none }
  | .consumer =>
    (openMapping s.ring.file).toOption.map fun ring =>
      { s with ring := ring, skipping := false }

/-- A `Pop` on a ring without a producer, up to the empty answer. -/
def drain (m : Mapping) : ℕ → Option (List Bytes)
  | 0 => none
  | n + 1 =>
    match pop m [m.tail, m.tail] with
    | some (.empty, _) => some []
    | some (.payload p, stores) => (drain (stores.foldl Mapping.store m) n).map (p :: ·)
    | _ => none

/-- The payloads whose `Append` has stored its tail and that no `Pop` has taken. -/
def System.unread (s : System) : List Bytes := (s.appended.map Prod.fst).drop s.returned.length

/-- Cursors are read as in `ring_refines_fifo`. -/
def Loads (s : System) : CrashAction → Prop
  | .op a => Current s a ∧ Coherent s a
  | _ => True

/-- Payloads are shorter than `2 ^ 32` bytes and the tail stays below `2 ^ 64`. -/
def Representable (s : System) : CrashAction → Prop
  | .op (.append head payload) => payload.length < 2 ^ 32 ∧
      ((append s.ring head payload).isOk →
        s.ring.tail + span s.ring.capacity s.ring.tail payload.length < 2 ^ 64)
  | _ => True

instance (s : System) : DecidablePred (Loads s)
  | .op _ => by unfold Loads; infer_instance
  | .producer _ | .consumer => isTrue trivial

instance (s : System) : DecidablePred (Representable s)
  | .op (.append _ _) => by unfold Representable; infer_instance
  | .op .store | .op (.pop _) | .producer _ | .consumer => isTrue trivial

/-! ## The invariant -/

section Steps

variable {c : ℕ} {s u : System}

/-- The stop of a producer leaves the unread bytes as they are. -/
theorem Inv.crashProducer (inv : Inv c s) (k : ℕ) :
    Inv c { s with ring := s.torn k, pending := none } := by
  have stopped : ∀ ring : Mapping, ring = s.ring →
      Inv c { s with ring := ring, pending := none } := by
    rintro ring rfl
    obtain ⟨read, unread, split⟩ := inv.split
    refine { inv with
      split := ⟨read, unread, ⟨split.appended, split.returned, split.behind, split.queue⟩⟩
      underWay := by simp [AppendUnderWay] }
  unfold System.torn
  split
  · next p pos bs rest pending =>
    obtain ⟨read, unread, split⟩ := inv.split
    have free := inv.writesFreeBytes p pos bs rest pending
    refine { inv with
      split := ⟨read, unread, ⟨split.appended, split.returned, split.behind, ?_⟩⟩
      underWay := by simp [AppendUnderWay] }
    apply split.queue.congr inv.capacity_pos
    intro x hx hxt
    apply write_apply_of_ne
    intro i hi e
    exact (free i (by simp at hi; omega)).2 x hx hxt e.symm
  · exact stopped _ rfl

theorem Inv.crashConsumer (inv : Inv c s) : Inv c { s with skipping := false } := by
  obtain ⟨read, unread, split⟩ := inv.split
  exact { inv with
    skipped := by simp
    split := ⟨read, unread, ⟨split.appended, split.returned, split.behind, split.queue⟩⟩
    underWay := inv.underWay }

theorem capacity_torn (s : System) (k : ℕ) : (s.torn k).capacity = s.ring.capacity := by
  unfold System.torn
  split <;> rfl

/-- A payload that `Append` accepts without cutting its length is below the skip marker. -/
theorem length_of_append {m : Mapping} {head : ℕ} {p : Bytes} (small : p.length < 2 ^ 32)
    (ok : (append m head p).isOk) : p.length < 2 ^ 32 - 1 := by
  have len : p.length % 2 ^ 32 = p.length := Nat.mod_eq_of_lt small
  by_contra large
  have marker : p.length > maxPayload := by
    unfold maxPayload
    omega
  simp only [append, len, if_pos marker] at ok
  cases ok

theorem eq_of_refused {head : ℕ} {p : Bytes} (refused : ¬(append s.ring head p).isOk)
    (enabled : step s (.append head p) = some u) : u = s := by
  simp only [step] at enabled
  split_ifs at enabled
  split at enabled
  · exact (Option.some.inj enabled).symm
  · next answer =>
    rw [answer] at refused
    exact absurd rfl refused

/-- Both sides can open the ring again. -/
theorem crashStep_producer (small : headerSize + s.ring.capacity < 2 ^ 63) (k : ℕ) :
    crashStep s (.producer k) = some { s with ring := s.torn k, pending := none } := by
  have opened : openMapping (s.torn k).file = .ok (s.torn k) :=
    openMapping_file (by rwa [capacity_torn])
  rw [crashStep, opened]
  rfl

theorem crashStep_consumer (small : headerSize + s.ring.capacity < 2 ^ 63) :
    crashStep s .consumer = some { s with skipping := false } := by
  rw [crashStep, openMapping_file small]
  rfl

theorem Inv.crash {a : CrashAction} (inv : Inv c s) (size : headerSize + c < 2 ^ 63)
    (loads : Loads s a) (short : Representable s a) (enabled : crashStep s a = some u) :
    Inv c u := by
  have small : headerSize + s.ring.capacity < 2 ^ 63 := by rwa [inv.capacity]
  cases a with
  | op a =>
    cases a with
    | append head payload =>
      by_cases ok : (Ring.append s.ring head payload).isOk
      · exact inv.step loads.1 ⟨length_of_append short.1 ok, short.2⟩ loads.2 enabled
      · -- a refused call leaves everything as it was
        obtain rfl := eq_of_refused ok enabled
        exact inv
    | store => exact inv.step loads.1 trivial loads.2 enabled
    | pop t => exact inv.step loads.1 trivial loads.2 enabled
  | producer k =>
    rw [crashStep_producer small] at enabled
    cases enabled
    exact inv.crashProducer k
  | consumer =>
    rw [crashStep_consumer small] at enabled
    cases enabled
    exact inv.crashConsumer

/-! ## What a consumer finds -/

theorem unread_eq {read unread : List (Bytes × ℕ)} (split : Split s read unread) :
    s.unread = unread.map Prod.fst := by
  rw [System.unread, split.appended, List.map_append, split.returned, List.drop_left]

/-- A `Pop` whose first round takes an entry. -/
theorem drain_payload {m : Mapping} {p : Bytes} {head : ℕ} (n : ℕ)
    (round : popRound m m.tail = .done (.payload p) (some head)) :
    drain m (n + 1) = (drain (m.store (.head head)) n).map (p :: ·) := by
  simp [drain, pop, round]

/-- A `Pop` that passes a marker first. -/
theorem drain_skip {m : Mapping} {p : Bytes} {mid head : ℕ} (n : ℕ)
    (first : popRound m m.tail = .again mid)
    (second : popRound (m.store (.head mid)) m.tail = .done (.payload p) (some head)) :
    drain m (n + 1) = (drain (m.store (.head head)) n).map (p :: ·) := by
  simp only [drain, pop, first]
  rw [second]
  rfl

/-- Everything between the cursors comes out in order. -/
theorem drain_of_queue {data : Memory} {t h : ℕ} (pos : 0 < c) (tail_lt : t < 2 ^ 64)
    {q : List (Bytes × ℕ)} (queue : Queue c data t h q) :
    drain ⟨c, h, t, data⟩ (q.length + 1) = some (q.map Prod.fst) := by
  induction queue with
  | nil => simp [drain, pop, popRound]
  | @entry h p q small fits stored rest ih =>
    have le := rest.head_le
    have size := le_entrySize p.length
    rw [List.length_cons, drain_payload _ (popRound_entry (by dsimp only; omega) pos small fits
      stored (by dsimp only; omega)), Mapping.store, ih]
    rfl
  | @skip h p q small room marker fits stored rest ih =>
    have le := rest.head_le
    have size := le_entrySize p.length
    have lap := add_sub_mod pos h
    have first := popRound_skip (m := ⟨c, h, t, data⟩) (t := t) (by dsimp only; omega) pos room
      marker (by dsimp only; omega)
    have second := popRound_entry (m := ⟨c, h + (c - h % c), t, data⟩) (t := t) (p := p)
      (by dsimp only; omega) pos small (by dsimp only; rw [lap]; omega) (by rw [lap]; exact stored)
      (by dsimp only; omega)
    rw [List.length_cons, drain_skip _ first second, Mapping.store, ih]
    rfl

/-- A ring that is opened in any state of a run holds the unread payloads and nothing else. -/
theorem Inv.drain_eq (inv : Inv c s) : drain s.ring (s.unread.length + 1) = some s.unread := by
  obtain ⟨read, unread, split⟩ := inv.split
  rw [unread_eq split, List.length_map]
  exact drain_of_queue inv.capacity_pos inv.tail_lt split.queue

/-! ## What a step does to the queue -/

/-- What an operation's next step does to the unread payloads.  The last store of an `Append`, that
of the tail, adds its payload; the store with which a `Pop` returns takes the first one away; before
those stores nothing changes. -/
def QueueStep (s u : System) : Action → Prop
  | .append _ _ => u.unread = s.unread
  | .store => (u.pending.isSome ∧ u.unread = s.unread) ∨
      ∃ p cursor, s.pending = some (p, [.tail cursor]) ∧ u.pending = none ∧
        u.unread = s.unread ++ [p]
  | .pop _ => (u.returned = s.returned ∧ u.unread = s.unread) ∨
      ∃ p, u.returned = s.returned ++ [p] ∧ s.unread = p :: u.unread

theorem Inv.queueStep (inv : Inv c s) {a : Action} (loads : Loads s (.op a))
    (enabled : Ring.step s a = some u) : QueueStep s u a := by
  obtain ⟨read, unread, split⟩ := inv.split
  cases a with
  | append head payload =>
    simp only [Ring.step] at enabled
    split_ifs at enabled
    split at enabled <;> cases enabled <;> rfl
  | store =>
    simp only [Ring.step] at enabled
    split at enabled
    · cases enabled
      exact .inl ⟨rfl, rfl⟩
    · next p cursor pending =>
      cases enabled
      refine .inr ⟨p, cursor, pending, rfl, ?_⟩
      have le : s.returned.length ≤ (s.appended.map Prod.fst).length := by
        rw [split.appended, List.map_append, split.returned]
        simp
      simp only [System.unread, List.map_append, List.drop_append_of_le_length le]
      rfl
    · cases enabled
  | pop t =>
    have spec := inv.popRound_spec split loads.1 loads.2
    have before := unread_eq split
    simp only [Ring.step] at enabled
    generalize popRound s.ring t = round at spec enabled
    cases spec with
    | empty _ =>
      cases enabled
      exact .inl ⟨rfl, rfl⟩
    | @payload p e q first le rest dvd lt =>
      cases enabled
      refine .inr ⟨p, rfl, ?_⟩
      have head : (s.appended.map Prod.fst).drop s.returned.length = p :: q.map Prod.fst := by
        rw [← System.unread, before, first]
        rfl
      rw [before, first, System.unread]
      simp only [List.length_append, List.length_singleton]
      rw [← List.drop_drop, head]
      rfl
    | again =>
      cases enabled
      exact .inl ⟨rfl, rfl⟩

/-! ## Runs with stops -/

theorem inv_of_crashRun {n : UInt64} {m : Mapping} (created : create n = .ok m)
    (capacity : minCapacity ≤ m.capacity) {as : List CrashAction}
    (run : Run crashStep (fun s a => Loads s a ∧ Representable s a) (.start m) as s) :
    Inv m.capacity s := by
  obtain ⟨head, tail, dvd, lt, -⟩ := create_ok created
  have pos : 0 < m.capacity := Nat.lt_of_lt_of_le (by decide) capacity
  apply run.invariant (Inv m.capacity) (inv_start head tail pos dvd lt)
  intro t a u inv allowed enabled
  exact inv.crash (fileSize_of_create created) allowed.1 allowed.2 enabled

end Steps

/-- In every state that appends, pops and stops of either side can lead to, with payloads below
`2 ^ 32` bytes and a tail below `2 ^ 64`: the ring can be opened and a consumer finds just the
unread payloads; a stop, wherever it falls, leaves these as they are; every other step leaves them
as they are or completes one `Append` or one `Pop`; and every `Pop` answers for the tail it
loaded. -/
theorem ring_crash_atomic {n : UInt64} {m : Mapping} (created : create n = .ok m)
    (capacity : minCapacity ≤ m.capacity) {as : List CrashAction} {s : System}
    (run : Run crashStep (fun s a => Loads s a ∧ Representable s a) (.start m) as s) :
    openMapping s.ring.file = .ok s.ring ∧
      drain s.ring (s.unread.length + 1) = some s.unread ∧
      (∀ k, ∃ u, crashStep s (.producer k) = some u ∧ u.unread = s.unread) ∧
      (∃ u, crashStep s .consumer = some u ∧ u.unread = s.unread) ∧
      (∀ a u, Loads s (.op a) → crashStep s (.op a) = some u → QueueStep s u a) ∧
      s.returned <+: s.appended.map Prod.fst ∧
      ∀ tail ∈ s.tails, s.usedTail ≤ tail → PopsNext s tail := by
  have inv := inv_of_crashRun created capacity run
  have small : headerSize + s.ring.capacity < 2 ^ 63 := by
    rw [inv.capacity]
    exact fileSize_of_create created
  refine ⟨openMapping_file small, inv.drain_eq, ?_, ?_, ?_, ?_, ?_⟩
  · intro k
    exact ⟨_, crashStep_producer small k, rfl⟩
  · exact ⟨_, crashStep_consumer small, rfl⟩
  · intro a u loads enabled
    exact inv.queueStep loads enabled
  · obtain ⟨read, unread, split⟩ := inv.split
    rw [split.appended, List.map_append, split.returned]
    exact List.prefix_append _ _
  · intro tail current coherent
    exact inv.popsNext current coherent

/-- A producer stops two bytes into the checksum of its second entry; the next one appends a
payload that the consumer, itself opened anew, finds behind the first. -/
def tornRun : List CrashAction :=
  [.op (.append 0 [7]), .op .store, .op .store, .op .store, .op .store,
    .op (.append 0 [8]), .op .store, .producer 2, .consumer,
    .op (.append 0 [9]), .op .store, .op .store, .op .store, .op .store]

theorem ring_crash_atomic_torn :
    ∃ m s, create 4096 = .ok m ∧ minCapacity ≤ m.capacity ∧
      Run crashStep (fun s a => Loads s a ∧ Representable s a) (.start m) tornRun s ∧
      s.unread = [[7], [9]] ∧ drain s.ring 3 = some [[7], [9]] := by
  obtain ⟨s, run, unread⟩ := Run.exists_of_exec crashStep
    (fun s a => Loads s a ∧ Representable s a) (.start ⟨4096, 0, 0, fun _ => 0⟩) tornRun
    (fun s => s.unread = [[7], [9]]) (by decide +kernel)
  have atomic := ring_crash_atomic create_4096 (by decide) run
  refine ⟨_, s, create_4096, by decide, run, unread, ?_⟩
  have found := atomic.2.1
  rwa [unread] at found

/-! ## Payloads whose length is cut -/

/-- What `Pop` returns is no longer than an entry can say. -/
theorem length_of_popRound {m : Mapping} {tail : ℕ} {p : Bytes} {stored : Option ℕ}
    (round : popRound m tail = .done (.payload p) stored) : p.length ≤ maxPayload := by
  simp only [popRound] at round
  split_ifs at round with _ _ _ _ bogus
  all_goals cases round
  rw [length_read]
  omega

theorem length_of_pop {tails : List ℕ} : ∀ {m : Mapping} {p : Bytes} {stores : List Store},
    pop m tails = some (.payload p, stores) → p.length ≤ maxPayload := by
  induction tails with
  | nil => intro m p stores h; cases h
  | cons tail tails ih =>
    intro m p stores h
    simp only [pop] at h
    split at h
    · next round =>
      obtain ⟨rfl, -⟩ := Prod.mk.inj (Option.some.inj h)
      exact length_of_popRound round
    · obtain ⟨⟨r, rest⟩, popped, e⟩ := Option.map_eq_some_iff.1 h
      obtain rfl : r = .payload p := (Prod.mk.inj e).1
      exact ih popped

theorem length_of_drain {n : ℕ} : ∀ {m : Mapping} {found : List Bytes},
    drain m n = some found → ∀ p ∈ found, p.length ≤ maxPayload := by
  induction n with
  | zero => intro m found h; cases h
  | succ n ih =>
    intro m found h p mem
    simp only [drain] at h
    split at h
    · cases h
      simp at mem
    · next popped =>
      obtain ⟨rest, hrest, rfl⟩ := Option.map_eq_some_iff.1 h
      rcases List.mem_cons.1 mem with rfl | mem
      · exact length_of_pop popped
      · exact ih hrest p mem
    · cases h

/-- A payload of `2 ^ 32` bytes is stored as an empty one, with its own checksum. -/
theorem append_cut {p : Bytes} (length : p.length = 2 ^ 32) :
    append ⟨4096, 0, 0, fun _ => 0⟩ 0 p =
      .ok [.bytes 0 (le32 0), .bytes 4 (le32 (crc32 p)), .bytes 8 [], .tail 8] := by
  have cut : p.length % 2 ^ 32 = 0 := by rw [length, Nat.mod_self]
  simp only [append, cut]
  rfl

/-- The state after an `Append` of `2 ^ 32` bytes to a new ring: the entry says that it is empty. -/
def afterCut (p : Bytes) : System :=
  let data := write (write (write (fun _ => 0) 0 (le32 0)) 4 (le32 (crc32 p))) 8 []
  ⟨⟨4096, 0, 8, data⟩, [0], [8, 0], 0, 0, none, false, [(p, 8)], []⟩

theorem run_afterCut {p : Bytes} (length : p.length = 2 ^ 32) :
    Run crashStep (fun s a => Loads s a) (.start ⟨4096, 0, 0, fun _ => 0⟩)
      [.op (.append 0 p), .op .store, .op .store, .op .store, .op .store, .consumer]
      (afterCut p) := by
  have begun : crashStep (.start ⟨4096, 0, 0, fun _ => 0⟩) (.op (.append 0 p)) = some
      { System.start ⟨4096, 0, 0, fun _ => 0⟩ with
        pending := some (p, [.bytes 0 (le32 0), .bytes 4 (le32 (crc32 p)), .bytes 8 [],
          .tail 8]) } := by
    simp only [crashStep, step, System.start, append_cut length]
    rfl
  have reopened : crashStep (afterCut p) .consumer = some (afterCut p) :=
    crashStep_consumer (s := afterCut p) (by simp only [afterCut, headerSize]; decide)
  refine .cons _ ⟨List.mem_singleton.2 rfl, le_rfl⟩ begun ?_
  refine .cons _ ⟨trivial, trivial⟩ rfl (.cons _ ⟨trivial, trivial⟩ rfl ?_)
  refine .cons _ ⟨trivial, trivial⟩ rfl (.cons _ ⟨trivial, trivial⟩ rfl ?_)
  exact .cons _ trivial reopened .nil

/-- A payload of `2 ^ 32` bytes is appended in full before the consumer opens the ring, and taking
everything out never gives it back. -/
theorem cut_payload_is_not_found :
    ∃ m s, create 4096 = .ok m ∧ minCapacity ≤ m.capacity ∧
      Run crashStep (fun s a => Loads s a) (.start m)
        [.op (.append 0 (List.replicate (2 ^ 32) 0)), .op .store, .op .store, .op .store,
          .op .store, .consumer] s ∧
      s.pending = none ∧ s.unread = [List.replicate (2 ^ 32) 0] ∧
      ∀ n, drain s.ring n ≠ some s.unread := by
  have length : (List.replicate (2 ^ 32) (0 : UInt8)).length = 2 ^ 32 := List.length_replicate
  generalize List.replicate (2 ^ 32) (0 : UInt8) = p at length ⊢
  refine ⟨_, afterCut p, create_4096, by decide, run_afterCut length, rfl, rfl, ?_⟩
  intro n found
  have le := length_of_drain found p (List.mem_singleton.2 rfl)
  rw [length] at le
  revert le
  decide

end OlricStack.Ring
