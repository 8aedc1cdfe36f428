import OlricStack.Lib.ByteMemory
import OlricStack.Store.Record

/-!
# The byte ring

`internal/ring/ring.go`: a data region of `capacity` bytes addressed by absolute 64-bit cursors
modulo the capacity.  `Append` and `Pop` are given by the memory stores they carry out, in program
order (`Store`), so that the state between two stores can be spoken of.  The other side's cursor is
an argument, the value the call happened to load; a side's own cursor is read from the mapping.
-/

namespace OlricStack.Ring

open ByteMemory

/-- The size of the header in bytes. -/
def headerSize : ℕ := 64

/-- The length word that says that the rest of the data area is skipped. -/
def skipMarker : ℕ := 0xFFFFFFFF

/-- The longest payload. -/
def maxPayload : ℕ := 0xFFFFFFFE

/-- The smallest capacity that `Create` makes. -/
def minCapacity : ℕ := 4096

/-- Addition of unsigned 64-bit words. -/
def add64 (a b : ℕ) : ℕ := (a + b) % 2 ^ 64

/-- Subtraction of unsigned 64-bit words. -/
def sub64 (a b : ℕ) : ℕ := (a + (2 ^ 64 - b)) % 2 ^ 64

/-- Round up to a multiple of 8. -/
def alignUp (n : ℕ) : ℕ := if n % 8 = 0 then n else n + (8 - n % 8)

/-! ## Checksums -/

/-- One bit of the reflected Castagnoli polynomial division. -/
def crcShift (c : UInt32) : UInt32 := if c &&& 1 = 1 then (c >>> 1) ^^^ 0x82f63b78 else c >>> 1

/-- Absorb one byte. -/
def crcByte (c : UInt32) (b : UInt8) : UInt32 :=
  crcShift (crcShift (crcShift (crcShift (crcShift (crcShift (crcShift (crcShift
    (c ^^^ b.toUInt32))))))))

/-- `crc32.Checksum` with the Castagnoli table. -/
def crc32 (bs : Bytes) : ℕ := ((bs.foldl crcByte 0xFFFFFFFF) ^^^ 0xFFFFFFFF).toNat

theorem crc32_lt (bs : Bytes) : crc32 bs < 2 ^ 32 := UInt32.toNat_lt _

/-- The check value of CRC-32C, on the digits from 1 to 9. -/
example : crc32 [49, 50, 51, 52, 53, 54, 55, 56, 57] = 0xE3069283 := by decide +kernel

/-! ## Mappings -/

/-- An open ring file: the header's capacity and cursors, and the data region. -/
structure Mapping where
  capacity : ℕ
  head : ℕ
  tail : ℕ
  data : Memory

/-- The outcomes of a call that does not succeed; `panic` is an out-of-range slice or a division by
zero. -/
inductive RingError
  | payloadTooLarge
  | ringFull
  | corrupted
  | panic
deriving DecidableEq, Repr

/-- One store to the shared file. -/
inductive Store
  | bytes (pos : ℕ) (bs : Bytes)
  | head (cursor : ℕ)
  | tail (cursor : ℕ)
deriving DecidableEq, Repr

namespace Mapping

/-- What one store of a process does to the memory. -/
def store (m : Mapping) : Store → Mapping
  | .bytes pos bs => { m with data := write m.data pos bs }
  | .head cursor => { m with head := cursor }
  | .tail cursor => { m with tail := cursor }

end Mapping

/-- Why `Create` or `openMapping` fails. -/
inductive OpenError
  | belowMinimum
  | truncate
  | tooSmall
deriving DecidableEq, Repr

/-- `Create` followed by `openMapping`.  The file size is a signed 64-bit number: a size that does
not fit is refused by `Truncate`, and a file shorter than the header by `openMapping`. -/
def create (capacity : UInt64) : Except OpenError Mapping :=
  if capacity.toNat < minCapacity then .error .belowMinimum
  else
    let capacity :=
      if capacity.toNat % 8 ≠ 0 then add64 capacity.toNat (8 - capacity.toNat % 8)
      else capacity.toNat
    let total := ((headerSize + capacity : ℕ) : ℤ).bmod (2 ^ 64)
    if total < 0 then .error .truncate
    else if total < headerSize then .error .tooSmall
    else .ok ⟨capacity, 0, 0, fun _ => 0⟩

/-! ## Append -/

/-- The stores of an entry at `pos`: length, checksum, payload.  The copy is bounded by the 32-bit
length, the checksum covers the whole payload. -/
def entryStores (pos payloadLen : ℕ) (payload : Bytes) : List Store :=
  [.bytes pos (le32 payloadLen), .bytes (pos + 4) (le32 (crc32 payload)),
    .bytes (pos + 8) (payload.take payloadLen)]

/-- `Producer.Append` with `head` the value loaded for the consumer's cursor. -/
def append (m : Mapping) (head : ℕ) (payload : Bytes) : Except RingError (List Store) :=
  let payloadLen := payload.length % 2 ^ 32
  if payloadLen > maxPayload then .error .payloadTooLarge
  else
    let entrySize := alignUp (8 + payloadLen)
    if entrySize > m.capacity then .error .payloadTooLarge
    else
      let used := sub64 m.tail head
      let free := sub64 m.capacity used
      let posInRing := m.tail % m.capacity
      let spaceToBoundary := m.capacity - posInRing
      let needSkip := spaceToBoundary < entrySize
      let needed := if needSkip then add64 spaceToBoundary entrySize else entrySize
      if needed > free then .error .ringFull
      else if needSkip then
        if m.capacity < posInRing + 8 then .error .panic
        else .ok (.bytes posInRing (le32 skipMarker) :: .bytes (posInRing + 4) (le32 0) ::
          entryStores 0 payloadLen payload ++
            [.tail (add64 (add64 m.tail spaceToBoundary) entrySize)])
      else .ok (entryStores posInRing payloadLen payload ++ [.tail (add64 m.tail entrySize)])

/-! ## Pop -/

/-- What `Consumer.Pop` returns. -/
inductive PopResult
  | empty
  | payload (p : Bytes)
  | error (e : RingError)
deriving DecidableEq, Repr

/-- One round of the loop in `Consumer.Pop`: either the call returns, with the head it stores if
any, or a skip marker was passed and the head moved. -/
inductive PopRound
  | done (r : PopResult) (stored : Option ℕ)
  | again (head : ℕ)
deriving DecidableEq, Repr

/-- The round with `tail` the value loaded for the producer's cursor. -/
def popRound (m : Mapping) (tail : ℕ) : PopRound :=
  if m.head = tail then .done .empty none
  else if m.capacity = 0 then .done (.error .panic) none
  else
    let posInRing := m.head % m.capacity
    if m.capacity < posInRing + 4 then .done (.error .panic) none
    else
      let rawLen := readWord m.data posInRing
      if rawLen = skipMarker then .again (add64 m.head (m.capacity - posInRing))
      else if rawLen > maxPayload then .done (.error .corrupted) none
      else
        let entrySize := alignUp (8 + rawLen)
        if entrySize > m.capacity - posInRing then .done (.error .corrupted) none
        else
          let crc := readWord m.data (posInRing + 4)
          let payload := read m.data (posInRing + 8) rawLen
          if crc32 payload ≠ crc then .done (.error .corrupted) none
          else .done (.payload payload) (some (add64 m.head entrySize))

/-- `Consumer.Pop`, loading the producer's cursor anew in every round; `none` when the call has not
returned by the last load. -/
def pop (m : Mapping) : List ℕ → Option (PopResult × List Store)
  | [] => none
  | tail :: tails =>
    match popRound m tail with
    | .done r stored => some (r, stored.toList.map .head)
    | .again head => (pop (m.store (.head head)) tails).map fun q => (q.1, .head head :: q.2)

end OlricStack.Ring
