import OlricStack.Ring.Crash

/-!
# The length of a payload

`Append` narrows the length of its payload to 32 bits before it checks anything.  A payload below
`2 ^ 32` bytes is refused, with the ring as it was, or comes out of `Pop` whole; a longer one that
`Append` accepts never does, and is not refused as too large either, unless what is left of its
length is (`append_whole_iff`).
-/

namespace OlricStack.Ring

open ByteMemory Transition

/-- When `Append` says that the payload is too large. -/
theorem append_tooLarge_iff (m : Mapping) (head : ℕ) (p : Bytes) :
    append m head p = .error .payloadTooLarge ↔
      p.length % 2 ^ 32 = 2 ^ 32 - 1 ∨ m.capacity < entrySize (p.length % 2 ^ 32) := by
  have narrow := Nat.mod_lt p.length (show 0 < 2 ^ 32 by decide)
  simp only [append, entrySize, maxPayload]
  split_ifs <;> simp only [true_iff, reduceCtorEq, false_iff, Except.error.injEq] <;> omega

/-! ## An append to its end -/

section Complete

variable {c : ℕ} {s u : System}

theorem Inv.appended_eq (inv : Inv c s) : s.appended.map Prod.fst = s.returned ++ s.unread := by
  obtain ⟨read, unread, split⟩ := inv.split
  rw [unread_eq split, split.appended, List.map_append, split.returned]

/-- When the `Append` under way has done its stores, its payload is behind the unread ones. -/
theorem Inv.complete {p : Bytes} {stores : List Store} (inv : Inv c s)
    (pending : s.pending = some (p, stores)) :
    ∃ u, Inv c u ∧ u.ring = stores.foldl Mapping.store s.ring ∧ u.unread = s.unread ++ [p] := by
  obtain ⟨body, next, rfl, -⟩ := inv.underWay p stores pending
  induction body generalizing s with
  | nil =>
    have enabled : Ring.step s .store = some { s with
        ring := s.ring.store (.tail next), tails := next :: s.tails, pending := none,
        appended := s.appended ++ [(p, next)] } := by
      simp only [Ring.step, pending]
      rfl
    refine ⟨_, inv.storeTail pending, rfl, ?_⟩
    rcases inv.queueStep (a := .store) ⟨trivial, trivial⟩ enabled with
      ⟨going, -⟩ | ⟨q, cursor, last, -, unread⟩
    · cases going
    · obtain ⟨rfl, -⟩ := Prod.mk.inj (Option.some.inj (pending.symm.trans last))
      exact unread
  | cons b body ih => exact ih (inv.storeBytes pending) rfl

/-- `Append` of a payload whose length is not cut, from its first load to its last store. -/
theorem Inv.append_whole {head : ℕ} {p : Bytes} {stores : List Store} (inv : Inv c s)
    (loads : Loads s (.op (.append head p))) (short : Representable s (.op (.append head p)))
    (ok : Ring.append s.ring head p = .ok stores) :
    ∃ n, drain (stores.foldl Mapping.store s.ring) n = some (s.unread ++ [p]) := by
  have length := length_of_append short.1 (by rw [ok]; rfl)
  have begun := inv.append loads.1 ⟨length, short.2⟩ loads.2 ok
  obtain ⟨u, done, ring, unread⟩ := begun.complete rfl
  refine ⟨u.unread.length + 1, ?_⟩
  rw [← ring, done.drain_eq, unread]
  rfl

/-- A ring that was created without a data region, and so is empty for good. -/
structure Hollow (s : System) : Prop where
  capacity : s.ring.capacity = 0
  head : s.ring.head = s.ring.tail
  tails : ∀ t ∈ s.tails, t = s.ring.tail
  pending : s.pending = none
  appended : s.appended = []
  returned : s.returned = []

theorem Hollow.tooLarge (h : Hollow s) (head : ℕ) (p : Bytes) :
    append s.ring head p = .error .payloadTooLarge := by
  rw [append_tooLarge_iff, h.capacity]
  have := le_entrySize (p.length % 2 ^ 32)
  omega

theorem Hollow.step {a : CrashAction} (h : Hollow s) (loads : Loads s a)
    (enabled : crashStep s a = some u) : Hollow u := by
  have small : headerSize + s.ring.capacity < 2 ^ 63 := by
    rw [h.capacity]
    decide
  cases a with
  | op a =>
    cases a with
    | append head p =>
      obtain rfl := eq_of_refused (by rw [h.tooLarge]; exact Bool.false_ne_true) enabled
      exact h
    | store =>
      simp only [crashStep, Ring.step, h.pending] at enabled
      cases enabled
    | pop t =>
      have empty : popRound s.ring t = .done .empty none := by
        rw [popRound, if_pos (h.head.trans (h.tails t loads.1).symm)]
      simp only [crashStep, Ring.step, empty] at enabled
      cases enabled
      exact ⟨h.capacity, h.head, h.tails, h.pending, h.appended, h.returned⟩
  | producer k =>
    have torn : s.torn k = s.ring := by rw [System.torn, h.pending]
    rw [crashStep_producer small, torn] at enabled
    cases enabled
    exact ⟨h.capacity, h.head, h.tails, rfl, h.appended, h.returned⟩
  | consumer =>
    rw [crashStep_consumer small] at enabled
    cases enabled
    exact ⟨h.capacity, h.head, h.tails, h.pending, h.appended, h.returned⟩

theorem inv_or_hollow_of_crashRun {n : UInt64} {m : Mapping} (created : create n = .ok m)
    {as : List CrashAction}
    (run : Run crashStep (fun s a => Loads s a ∧ Representable s a) (.start m) as s) :
    Inv m.capacity s ∨ Hollow s := by
  obtain ⟨head, tail, -, -, zero | large⟩ := create_ok created
  · right
    refine run.invariant Hollow
      ⟨zero, head.trans tail.symm, fun t => List.mem_singleton.1, rfl, rfl, rfl⟩ ?_
    intro s a u hollow allowed enabled
    exact hollow.step allowed.1 enabled
  · exact .inl (inv_of_crashRun created large run)

end Complete

/-- Take any ring that was created and any state that appends of payloads below `2 ^ 32` bytes, pops
and stops of either side lead to.  What was appended has been returned whole, or a consumer that
pops on gets it.  Now a payload of any length is appended.  If that fails, nothing changes; if it
succeeds, the consumer gets what was unread and then the whole payload, exactly if its length is
below `2 ^ 32`; and a payload that does not fit into the ring is refused as too large exactly if its
length is below `2 ^ 32` or the narrowed length is too large as well. -/
theorem append_whole_iff {n : UInt64} {m : Mapping} (created : create n = .ok m)
    {as : List CrashAction} {s : System}
    (run : Run crashStep (fun s a => Loads s a ∧ Representable s a) (.start m) as s) :
    s.appended.map Prod.fst = s.returned ++ s.unread ∧
      drain s.ring (s.unread.length + 1) = some s.unread ∧
      ∀ (head : ℕ) (p : Bytes), s.pending = none → Loads s (.op (.append head p)) →
        ((append s.ring head p).isOk →
          s.ring.tail + span s.ring.capacity s.ring.tail (p.length % 2 ^ 32) < 2 ^ 64) →
        (∀ e, append s.ring head p = .error e → crashStep s (.op (.append head p)) = some s) ∧
        (∀ stores, append s.ring head p = .ok stores →
          ((∃ n, drain (stores.foldl Mapping.store s.ring) n = some (s.unread ++ [p])) ↔
            p.length < 2 ^ 32)) ∧
        (s.ring.capacity < entrySize p.length →
          (append s.ring head p = .error .payloadTooLarge ↔ p.length < 2 ^ 32 ∨
            p.length % 2 ^ 32 = 2 ^ 32 - 1 ∨
            s.ring.capacity < entrySize (p.length % 2 ^ 32))) := by
  have reached := inv_or_hollow_of_crashRun created run
  have found : s.appended.map Prod.fst = s.returned ++ s.unread ∧
      drain s.ring (s.unread.length + 1) = some s.unread := by
    rcases reached with inv | hollow
    · exact ⟨inv.appended_eq, inv.drain_eq⟩
    · simp [System.unread, hollow.appended, hollow.returned, drain, pop, popRound, hollow.head]
  refine ⟨found.1, found.2, fun head p idle loads below => ⟨?_, ?_, ?_⟩⟩
  · intro e refused
    simp [crashStep, step, idle, refused]
  · intro stores ok
    constructor
    · -- what comes out of a ring is shorter than `2 ^ 32` bytes
      rintro ⟨n, all⟩
      have short := length_of_drain all p (by simp)
      unfold maxPayload at short
      omega
    · intro small
      rcases reached with inv | hollow
      · rw [Nat.mod_eq_of_lt small] at below
        exact inv.append_whole loads ⟨small, below⟩ ok
      · rw [hollow.tooLarge] at ok
        cases ok
  · intro large
    rw [append_tooLarge_iff]
    constructor
    · exact .inr
    · rintro (small | narrow)
      · exact .inr (by rwa [Nat.mod_eq_of_lt small])
      · exact narrow

/-- A third payload behind the two that the run with a torn store leaves unread. -/
theorem append_whole_iff_third :
    ∃ m s stores n, create 4096 = .ok m ∧
      Run crashStep (fun s a => Loads s a ∧ Representable s a) (.start m) tornRun s ∧
      append s.ring 0 [5] = .ok stores ∧
      drain (stores.foldl Mapping.store s.ring) n = some [[7], [9], [5]] := by
  obtain ⟨s, run, idle, unread, loads, ok, below⟩ := Run.exists_of_exec crashStep
    (fun s a => Loads s a ∧ Representable s a) (.start ⟨4096, 0, 0, fun _ => 0⟩) tornRun
    (fun s => s.pending = none ∧ s.unread = [[7], [9]] ∧ Loads s (.op (.append 0 [5])) ∧
      (append s.ring 0 [5]).isOk = true ∧
      s.ring.tail + span s.ring.capacity s.ring.tail 1 < 2 ^ 64) (by decide +kernel)
  cases answer : append s.ring 0 [5] with
  | error e =>
    rw [answer] at ok
    cases ok
  | ok stores =>
    obtain ⟨-, whole, -⟩ :=
      (append_whole_iff create_4096 run).2.2 0 [5] idle loads fun _ => below
    obtain ⟨n, found⟩ := (whole stores answer).2 (by decide)
    rw [unread] at found
    exact ⟨_, s, stores, n, create_4096, run, answer, found⟩

/-- `Append` puts a payload of `2 ^ 32` bytes into a ring of 4096: what it stores says that the
payload is empty, and a consumer never gets it. -/
theorem oversized_append_succeeds :
    ∃ m p stores, create 4096 = .ok m ∧ m.capacity < entrySize p.length ∧
      append m 0 p = .ok stores ∧ .bytes 0 (le32 0) ∈ stores ∧
      ∀ n, drain (stores.foldl Mapping.store m) n ≠ some [p] := by
  have length : (List.replicate (2 ^ 32) (0 : UInt8)).length = 2 ^ 32 := List.length_replicate
  generalize List.replicate (2 ^ 32) (0 : UInt8) = p at length
  refine ⟨_, p, _, create_4096, ?_, append_cut length, List.mem_cons_self, fun n all => ?_⟩
  · have large := le_entrySize p.length
    dsimp only
    omega
  · have short := length_of_drain all p (List.mem_singleton.2 rfl)
    unfold maxPayload at short
    omega

end OlricStack.Ring
