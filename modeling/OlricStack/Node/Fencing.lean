import OlricStack.Store.Record

/-!
# Leases and owner sequences

What a node stamps its writes with: the lease tracker of `internal/node/subscriber.go`, fed by
topology envelopes, gives the generation and the epoch, and the sequencer of
`internal/stringkv/sequencer.go` counts writes inside one such window.  Clock readings are Unix
milliseconds.
-/

namespace OlricStack.Node

/-! ## Leases -/

/-- `topologypb.WatchdogRole`. -/
inductive WatchdogRole
  | unspecified
  | primary
  | standby
deriving DecidableEq, Repr

/-- The fields of a `TopologyEnvelope` that bear on the lease. -/
structure Envelope where
  role : WatchdogRole
  generation : ℤ
  epoch : ℤ
  validUntilUnixMs : ℤ
deriving DecidableEq, Repr

/-- `LeaseTracker`. -/
structure Lease where
  generation : ℤ
  epoch : ℤ
  validUntilUnixMs : ℤ
deriving DecidableEq, Repr

/-- Why `Apply` rejects an envelope. -/
inductive LeaseError
  | topologyNotPrimary
  | topologyLeaseExpired
  | staleWatchdogGeneration
  | staleTopologyEpoch
deriving DecidableEq, Repr

namespace Lease

/-- `NewLeaseTracker`, whose lease is not valid. -/
def new : Lease := ⟨0, 0, 0⟩

/-- `Apply` of an envelope. -/
def apply (l : Lease) (env : Envelope) (nowMs : ℤ) : Except LeaseError Lease :=
  if env.role ≠ .primary then .error .topologyNotPrimary
  else if env.validUntilUnixMs ≤ nowMs then .error .topologyLeaseExpired
  else if env.generation < l.generation then .error .staleWatchdogGeneration
  else if env.generation > l.generation then
    -- a new primary starts its epochs afresh
    .ok ⟨env.generation, env.epoch, env.validUntilUnixMs⟩
  else if env.epoch < l.epoch then .error .staleTopologyEpoch
  else .ok ⟨l.generation, env.epoch, env.validUntilUnixMs⟩

/-- `Revoke`. -/
def revoke (l : Lease) : Lease := { l with validUntilUnixMs := 0 }

/-- `ServingAllowed`. -/
def servingAllowed (l : Lease) (nowMs : ℤ) : Bool := l.validUntilUnixMs > nowMs

/-- The generation and epoch to stamp a write with, unless the lease has expired. -/
def snapshotForWrite (l : Lease) (nowMs : ℤ) : Option (ℤ × ℤ) :=
  if l.validUntilUnixMs ≤ nowMs then none else some (l.generation, l.epoch)

/-- A fence taken earlier is still compatible: same generation, and the epoch has not gone back. -/
def verifyFence (l : Lease) (generation epoch nowMs : ℤ) : Bool :=
  if l.validUntilUnixMs ≤ nowMs then false
  else if l.generation ≠ generation then false
  else if l.epoch < epoch then false
  else true

theorem eq_of_snapshotForWrite {l : Lease} {nowMs : ℤ} {f : ℤ × ℤ}
    (h : l.snapshotForWrite nowMs = some f) : f = (l.generation, l.epoch) := by
  unfold snapshotForWrite at h
  split_ifs at h
  exact (Option.some.inj h).symm

/-- An accepted envelope gives the lease its generation and epoch, neither of which goes back. -/
theorem apply_ok {l l' : Lease} {env : Envelope} {nowMs : ℤ} (h : l.apply env nowMs = .ok l') :
    l'.generation = env.generation ∧ l'.epoch = env.epoch ∧
      (l.generation < env.generation ∨ l.generation = env.generation ∧ l.epoch ≤ env.epoch) := by
  unfold apply at h
  split_ifs at h with _ _ older newer stale
  · obtain rfl := Except.ok.inj h
    exact ⟨rfl, rfl, .inl newer⟩
  · obtain rfl := Except.ok.inj h
    exact ⟨by simp only; omega, rfl, .inr ⟨by omega, by omega⟩⟩

end Lease

/-! ## Sequencers -/

/-- `MemoryFenceSequencer`. -/
structure Sequencer where
  generation : ℤ
  epoch : ℤ
  seq : ℤ
deriving DecidableEq, Repr

/-- Why `Stamp` rejects a fence, with the values its messages give. -/
inductive StampError
  | invalidFence (generation epoch : ℤ)
  | ownerSequenceRollback (haveGeneration haveEpoch generation epoch : ℤ)
deriving DecidableEq, Repr

namespace Sequencer

/-- `NewMemoryFenceSequencer`. -/
def new : Sequencer := ⟨0, 0, 0⟩

/-- The window `(generation, epoch)` being counted. -/
def window (s : Sequencer) : ℤ ×ₗ ℤ := toLex (s.generation, s.epoch)

/-- `Stamp`: counting goes on in the current window, starts at 1 in a newer one, and is refused in
an older one.  The triple it returns is what the sequencer then holds. -/
def stamp (s : Sequencer) (generation epoch : ℤ) : Except StampError Sequencer :=
  if generation ≤ 0 ∨ epoch < 0 then .error (.invalidFence generation epoch)
  else if generation > s.generation ∨ generation = s.generation ∧ epoch > s.epoch then
    .ok ⟨generation, epoch, 1⟩
  else if generation = s.generation ∧ epoch = s.epoch then .ok { s with seq := s.seq + 1 }
  else .error (.ownerSequenceRollback s.generation s.epoch generation epoch)

/-- The sequence, an `int64` in the source, can be counted up. -/
def BelowMaximum (s : Sequencer) : Prop := s.seq < 9223372036854775807

/-- What the counter stands at in a window: zero in one that was not counted yet. -/
def counted (s : Sequencer) (generation epoch : ℤ) : ℤ :=
  if generation = s.generation ∧ epoch = s.epoch then s.seq else 0

theorem window_le_iff (s : Sequencer) (generation epoch : ℤ) :
    s.window ≤ toLex (generation, epoch) ↔
      s.generation < generation ∨ s.generation = generation ∧ s.epoch ≤ epoch := by
  simp only [window, Prod.Lex.toLex_le_toLex]

/-- A stamp succeeds on valid fences that are not older than the last one. -/
theorem stamp_isOk_iff (s : Sequencer) (generation epoch : ℤ) :
    (s.stamp generation epoch).isOk ↔
      0 < generation ∧ 0 ≤ epoch ∧ s.window ≤ toLex (generation, epoch) := by
  rw [window_le_iff]
  unfold stamp
  split_ifs <;> simp only [Except.isOk, Except.toBool, Bool.false_eq_true, false_iff, true_iff] <;>
    omega

/-- A successful stamp moves to its window and counts one up there. -/
theorem stamp_ok {s s' : Sequencer} {generation epoch : ℤ} (h : s.stamp generation epoch = .ok s') :
    s' = ⟨generation, epoch, s.counted generation epoch + 1⟩ ∧ 0 < generation ∧ 0 ≤ epoch ∧
      s.window ≤ toLex (generation, epoch) := by
  have ok := (s.stamp_isOk_iff generation epoch).1 (by rw [h]; rfl)
  refine ⟨?_, ok⟩
  unfold stamp at h
  unfold counted
  split_ifs at h with _ newer same
  · obtain rfl := Except.ok.inj h
    rw [if_neg (by omega)]
    rfl
  · obtain rfl := Except.ok.inj h
    obtain ⟨rfl, rfl⟩ := same
    rw [if_pos ⟨rfl, rfl⟩]

/-- Below the maximum the sequence of a stamp is an `int64`, so that the source counts as here. -/
theorem seq_stamp_int64 {s s' : Sequencer} {generation epoch : ℤ}
    (h : s.stamp generation epoch = .ok s') (nonneg : 0 ≤ s.seq) (below : s.BelowMaximum) :
    0 < s'.seq ∧ s'.seq < 9223372036854775808 := by
  obtain ⟨rfl, -⟩ := stamp_ok h
  unfold BelowMaximum at below
  dsimp only [counted]
  split_ifs <;> omega

example : (⟨1, 2, 5⟩ : Sequencer).stamp 1 3 = .ok ⟨1, 3, 1⟩ := by decide

example : (⟨1, 2, 5⟩ : Sequencer).stamp 1 1 = .error (.ownerSequenceRollback 1 2 1 1) := by decide

end Sequencer

end OlricStack.Node
