import OlricStack.Node.Acknowledge
import OlricStack.Node.Codec
import OlricStack.Ring.Room
import OlricStack.Store.Json

/-!
# The space check

Before a mutation the durable hook estimates how long the log entry will be and asks for that much
room in the ring and 64 KiB more.  The estimate counts the bytes of the strings and not those of
their escapes (`estimate_bounds_iff`, `escaped_key_exceeds_estimate`).  The check counts the free
bytes and not those that are skipped at the end of the data region: the reserve covers the skip of
an entry of up to 64 KiB, a longer one may be refused after the check has passed
(`passed_check_appends_iff`, `passed_check_is_refused`).
-/

namespace OlricStack.Node

open Transition

/-! ## The estimate -/

/-- JSON framing, field names, digits, braces. -/
def jsonOverhead : ℕ := 256

/-- The estimate of the stored entry in base64. -/
def DurableOperation.rawTwice (op : DurableOperation) : ℕ :=
  match op.entry with
  | none => 0
  | some e => e.encoded.length * 2

/-- `estimateOplogSize`. -/
def estimateOplogSize (writerID : Bytes) (op : DurableOperation) : ℕ :=
  op.dmap.length + op.key.length + writerID.length + jsonOverhead + op.rawTwice

/-- The bytes that escaping adds to a string. -/
def growth (s : Bytes) : ℕ := (Json.escape s).length - s.length

/-- What the estimate leaves for escapes. -/
def spare (writerID : Bytes) (kind : Op) (op : DurableOperation) (stamped : Sequencer)
    (nowUnixNano : ℤ) : ℕ :=
  jsonOverhead + op.rawTwice - frame (logEntry writerID kind op stamped nowUnixNano)

variable {writerID : Bytes} {kind : Op} {op : DurableOperation} {stamped : Sequencer}
  {nowUnixNano : ℤ}

theorem rawTwice_eq :
    op.rawTwice = (logEntry writerID kind op stamped nowUnixNano).encodedEntry.length * 2 := by
  unfold DurableOperation.rawTwice logEntry
  cases op.entry <;> rfl

/-- The estimate is an upper bound exactly when what escaping adds to the map name, the key and the
writer fits into the part of the overhead that the rest leaves over.  That is at least 15 bytes. -/
theorem estimate_bounds_iff (typed : (logEntry writerID kind op stamped nowUnixNano).Typed) :
    ((encodeText (logEntry writerID kind op stamped nowUnixNano)).length ≤
        estimateOplogSize writerID op ↔
      growth op.dmap + growth op.key + growth writerID ≤
        spare writerID kind op stamped nowUnixNano) ∧
    15 ≤ spare writerID kind op stamped nowUnixNano := by
  have covered := frame_le typed
  rw [← rawTwice_eq] at covered
  have dmap := Json.length_le_escape op.dmap
  have key := Json.length_le_escape op.key
  have writer := Json.length_le_escape writerID
  rw [length_encodeText,
    show (logEntry writerID kind op stamped nowUnixNano).dmap = op.dmap from rfl,
    show (logEntry writerID kind op stamped nowUnixNano).key = op.key from rfl,
    show (logEntry writerID kind op stamped nowUnixNano).writerID = writerID from rfl]
  unfold estimateOplogSize spare growth jsonOverhead
  omega

/-- A SET of one byte under a key of angle brackets. -/
def bracketSet (n : ℕ) : DurableOperation :=
  ⟨[100], List.replicate n 60, 7,
    some (MemEntry.stored ⟨List.replicate n 60, [1], 0, 1700000000000, 0⟩), 1, 1⟩

theorem estimate_bounds_short :
    (encodeText (logEntry [119] .set (bracketSet 2) ⟨1, 1, 1⟩ 1700000000000000000)).length ≤
      estimateOplogSize [119] (bracketSet 2) := by
  have typed : (logEntry [119] .set (bracketSet 2) ⟨1, 1, 1⟩ 1700000000000000000).Typed := by
    constructor <;> decide
  exact (estimate_bounds_iff typed).1.2 (by decide +kernel)

/-- Each bracket takes six bytes and is counted as one. -/
theorem escaped_key_exceeds_estimate :
    (logEntry [119] .set (bracketSet 60) ⟨1, 1, 1⟩ 1700000000000000000).Typed ∧
      estimateOplogSize [119] (bracketSet 60) <
        (encodeText
          (logEntry [119] .set (bracketSet 60) ⟨1, 1, 1⟩ 1700000000000000000)).length := by
  refine ⟨?_, by decide +kernel⟩
  constructor <;> decide +kernel

/-! ## The check -/

/-- Why `BeforeSet`, `BeforeDelete` or `BeforeExpire` fails. -/
inductive BeforeError
  | entryIsNil (text : String)
  | leaseExpired
  | ringAlmostFull
deriving DecidableEq, Repr

/-- Room for writes that slip in between the check and the `Append`. -/
def concurrentBuffer : ℕ := 64 * 1024

/-- `stamp`, with the ring as it is while `appendMu` is held. -/
def Hook.stamp (h : Hook) (l : Lease) (nowMs : ℤ) (ring : Ring.Mapping) (op : DurableOperation) :
    Except BeforeError DurableOperation :=
  match l.snapshotForWrite nowMs with
  | none => .error .leaseExpired
  | some (g, e) =>
    let op := { op with fenceGeneration := g, fenceEpoch := e }
    let estimatedSize := estimateOplogSize h.writerID op
    let free := Ring.sub64 ring.capacity (Ring.sub64 ring.tail ring.head)
    if free < estimatedSize + concurrentBuffer then .error .ringAlmostFull else .ok op

/-- `BeforeSet`. -/
def Hook.beforeSet (h : Hook) (l : Lease) (nowMs : ℤ) (ring : Ring.Mapping)
    (op : DurableOperation) : Except BeforeError DurableOperation :=
  if op.entry = none then .error (.entryIsNil "durable set entry is nil")
  else h.stamp l nowMs ring op

/-- `BeforeDelete`. -/
def Hook.beforeDelete (h : Hook) (l : Lease) (nowMs : ℤ) (ring : Ring.Mapping)
    (op : DurableOperation) : Except BeforeError DurableOperation :=
  h.stamp l nowMs ring op

/-- `BeforeExpire`. -/
def Hook.beforeExpire (h : Hook) (l : Lease) (nowMs : ℤ) (ring : Ring.Mapping)
    (op : DurableOperation) : Except BeforeError DurableOperation :=
  if op.entry = none then .error (.entryIsNil "durable expire entry is nil")
  else h.stamp l nowMs ring op

/-- The hook that is called before a mutation of a kind. -/
def Hook.before (h : Hook) (kind : Op) :=
  match kind with
  | .set => h.beforeSet
  | .delete => h.beforeDelete
  | .expire => h.beforeExpire

/-- A passed check has found the room it asks for. -/
theorem Hook.room_of_before {h : Hook} {l : Lease} {nowMs : ℤ} {ring : Ring.Mapping}
    {op op' : DurableOperation} (passed : h.before kind l nowMs ring op = .ok op') :
    estimateOplogSize h.writerID op' + concurrentBuffer ≤
      Ring.sub64 ring.capacity (Ring.sub64 ring.tail ring.head) := by
  have stamped (passed : h.stamp l nowMs ring op = .ok op') :
      estimateOplogSize h.writerID op' + concurrentBuffer ≤
        Ring.sub64 ring.capacity (Ring.sub64 ring.tail ring.head) := by
    unfold stamp at passed
    split at passed
    · cases passed
    · dsimp only at passed
      split_ifs at passed with full
      cases passed
      exact not_lt.1 full
  cases kind with
  | set =>
    unfold before beforeSet at passed
    dsimp only at passed
    split_ifs at passed
    exact stamped passed
  | delete => exact stamped passed
  | expire =>
    unfold before beforeExpire at passed
    dsimp only at passed
    split_ifs at passed
    exact stamped passed

/-! ## The append -/

section

open OlricStack.Ring

/-- From every state of the ring that coherent calls lead to: when the check has passed and the
estimate covers the payload, the first `Append` succeeds, whatever the consumer does in the
meantime, exactly if the entry fits behind the tail.  An entry whose estimate is at most 65528 bytes
does. -/
theorem passed_check_appends_iff {n : UInt64} {m : Mapping} (created : create n = .ok m)
    (capacity : minCapacity ≤ m.capacity) {as : List Ring.Action} {s : System}
    (run : Run Ring.step (fun s a => Current s a ∧ Fits s a ∧ Coherent s a) (.start m) as s)
    {h : Hook} {l : Lease} {nowMs : ℤ} {op op' : DurableOperation}
    (passed : h.before kind l nowMs s.ring op = .ok op') {p : Bytes}
    (short : p.length ≤ estimateOplogSize h.writerID op') :
    ((∀ pops u, Run Ring.step (fun s a => Draining s a ∧ Current s a ∧ Coherent s a) s pops u →
        (append u.ring u.ring.head p).isOk) ↔ FitsBehind s.ring p) ∧
      (estimateOplogSize h.writerID op' ≤ 65528 → FitsBehind s.ring p) :=
  (inv_of_run created capacity run).reserve_appends_iff (Hook.room_of_before passed) short

/-- A SET of `n` zero bytes. -/
def zerosSet (n : ℕ) : DurableOperation :=
  ⟨[100], [107], 7, some (MemEntry.stored ⟨[107], List.replicate n 0, 0, 1700000000000, 0⟩), 0, 0⟩

/-- A hook whose settings are those of a node. -/
def plainHook : Hook := ⟨[119], true, 5000000000, true, false⟩

/-- A lease of generation and epoch 1 that has not expired. -/
def plainLease : Lease := ⟨1, 1, 2000000000000⟩

/-- What `publish` appends for the operation. -/
def zerosPayload (n : ℕ) : Bytes :=
  encodeText (logEntry [119] .set { zerosSet n with fenceGeneration := 1, fenceEpoch := 1 }
    ⟨1, 1, 1⟩ 1700000000000000000)

theorem length_zerosPayload (n : ℕ) : (zerosPayload n).length = 128 + (n + 32) / 3 * 4 := by
  have encoded : (MemEntry.encode ⟨[107], List.replicate n 0, 0, 1700000000000, 0⟩).length =
      30 + n := by
    rw [MemEntry.length_encode]
    simp
  have nonempty : MemEntry.encode ⟨[107], List.replicate n 0, 0, 1700000000000, 0⟩ ≠ [] := by
    simp [MemEntry.encode]
  have dmap : (Json.escape [100]).length = 1 := by decide +kernel
  have key : (Json.escape [107]).length = 1 := by decide +kernel
  have writer : (Json.escape [119]).length = 1 := by decide +kernel
  have digits : (Decimal.formatInt 7).length = 1 ∧ (Decimal.formatInt 1).length = 1 ∧
      (Decimal.formatInt 1700000000000).length = 13 ∧
      (Decimal.formatInt 1700000000000000000).length = 19 := by decide
  rw [zerosPayload, length_encodeText]
  simp only [frame, logEntry, zerosSet, MemEntry.stored, Option.map_some, Option.getD_some, dmap,
    key, writer, nonempty, encoded, Op.text, List.length_cons, List.length_nil, if_true, if_false,
    digits, Nat.cast_ofNat]
  rw [if_neg (by decide)]
  omega

theorem estimate_zerosSet (n : ℕ) (g e : ℤ) :
    estimateOplogSize [119] { zerosSet n with fenceGeneration := g, fenceEpoch := e } =
      319 + 2 * n := by
  simp only [estimateOplogSize, jsonOverhead, zerosSet, DurableOperation.rawTwice, MemEntry.stored,
    MemEntry.length_encode, List.length_replicate, List.length_cons, List.length_nil]
  omega

/-- The check passes if there is room for the estimate and the reserve. -/
theorem before_zerosSet {n : ℕ} {ring : Mapping}
    (room : 319 + 2 * n + 65536 ≤ sub64 ring.capacity (sub64 ring.tail ring.head)) :
    plainHook.before .set plainLease 1700000000000 ring (zerosSet n) =
      .ok { zerosSet n with fenceGeneration := 1, fenceEpoch := 1 } := by
  have lease : plainLease.snapshotForWrite 1700000000000 = some (1, 1) := by decide
  have estimate := estimate_zerosSet n 1 1
  have present : (zerosSet n).entry ≠ none := by simp [zerosSet]
  simp only [Hook.before, Hook.beforeSet, if_neg present, Hook.stamp, lease, plainHook, estimate,
    concurrentBuffer]
  exact if_neg (by omega)

theorem create_320000 : create 320000 = .ok ⟨320000, 0, 0, fun _ => 0⟩ := by
  simp [create, minCapacity, headerSize, Int.bmod]

/-- The ring after an entry of 160000 bytes has gone through. -/
theorem exists_half_used :
    ∃ s, Run Ring.step (fun s a => Current s a ∧ Fits s a ∧ Coherent s a)
        (.start ⟨320000, 0, 0, fun _ => 0⟩)
        [.append 0 (List.replicate 159992 0), .store, .store, .store, .store, .pop 160000] s ∧
      s.ring.capacity = 320000 ∧ s.ring.head = 160000 ∧ s.ring.tail = 160000 := by
  have passes := one_entry_passes create_320000 (p := List.replicate 159992 0)
  rw [List.length_replicate, show entrySize 159992 = 160000 by decide] at passes
  exact passes (by decide) (by decide)

/-- A small SET is logged. -/
theorem passed_check_appends_small :
    ∃ s, Run Ring.step (fun s a => Current s a ∧ Fits s a ∧ Coherent s a)
        (.start ⟨320000, 0, 0, fun _ => 0⟩)
        [.append 0 (List.replicate 159992 0), .store, .store, .store, .store, .pop 160000] s ∧
      (append s.ring s.ring.head (zerosPayload 1000)).isOk := by
  obtain ⟨s, run, capacity, head, tail⟩ := exists_half_used
  have passed : plainHook.before .set plainLease 1700000000000 s.ring (zerosSet 1000) = .ok _ :=
    before_zerosSet (by rw [capacity, head, tail]; decide)
  have small : estimateOplogSize plainHook.writerID
      { zerosSet 1000 with fenceGeneration := 1, fenceEpoch := 1 } = 2319 :=
    estimate_zerosSet 1000 1 1
  obtain ⟨appends, fits⟩ := passed_check_appends_iff create_320000 (by decide) run passed
    (p := zerosPayload 1000) (by rw [length_zerosPayload, small]; decide)
  exact ⟨s, run, appends.2 (fits (by rw [small]; decide)) [] s .nil⟩

/-- A SET of about 120 kB on an empty ring of 320000 bytes: the check passes, the payload is shorter
than the estimate, and the `Append` is refused. -/
theorem passed_check_is_refused :
    ∃ s, Run Ring.step (fun s a => Current s a ∧ Fits s a ∧ Coherent s a)
        (.start ⟨320000, 0, 0, fun _ => 0⟩)
        [.append 0 (List.replicate 159992 0), .store, .store, .store, .store, .pop 160000] s ∧
      plainHook.before .set plainLease 1700000000000 s.ring (zerosSet 119968) =
        .ok { zerosSet 119968 with fenceGeneration := 1, fenceEpoch := 1 } ∧
      (zerosPayload 119968).length ≤ estimateOplogSize plainHook.writerID
        { zerosSet 119968 with fenceGeneration := 1, fenceEpoch := 1 } ∧
      append s.ring s.ring.head (zerosPayload 119968) = .error .ringFull := by
  obtain ⟨s, run, capacity, head, tail⟩ := exists_half_used
  refine ⟨s, run, before_zerosSet (by rw [capacity, head, tail]; decide), ?_, ?_⟩
  · rw [length_zerosPayload, show plainHook.writerID = [119] from rfl, estimate_zerosSet]
    decide
  · simp only [append, length_zerosPayload, capacity, head, tail]
    decide

end

end OlricStack.Node
