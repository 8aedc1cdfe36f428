import OlricStack.Lib.Run
import OlricStack.Node.Fencing

/-!
# Stopping after a publish failure

A node that could not log a mutation revokes its lease and cancels its context (`OnFatal` in
`cmd/olric-node/main.go`).  The topology subscription of `internal/node/subscriber.go` runs beside
it and sees the cancellation only when it blocks again.  As long as it has nothing received and not
yet applied when the lease is revoked, and receives nothing afterwards, the node never serves again
(`fail_stop_final`); an envelope in between brings the lease back (`late_envelope_revives_lease`).
-/

namespace OlricStack.Node

open Transition

/-! ## The process -/

/-- Where the subscription goroutine stands (`runTopologySubscription`, `Subscriber.Run`). -/
inductive SubscriberPc
  /-- between two attempts to subscribe -/
  | idle
  /-- in `stream.Recv` -/
  | receiving
  /-- `Recv` has returned the envelope, `Apply` is to come -/
  | received (env : Envelope)
  /-- `Apply` has rejected an envelope, `Revoke` is to come -/
  | rejected
  /-- in `Joiner.Join` -/
  | joining
  /-- about to look for an error of the heartbeat goroutine -/
  | checking
  | stopped
deriving DecidableEq, Repr

/-- How far `OnFatal` has come. -/
inductive FatalPc
  | notCalled
  | called
  /-- the lease is revoked, the context is not yet cancelled -/
  | revoked
  | returned
deriving DecidableEq, Repr

/-- The lease, the subscriber and the goroutine that ends the process. -/
structure Process where
  lease : Lease
  subscriber : SubscriberPc
  fatal : FatalPc
  cancelled : Bool
deriving DecidableEq, Repr

/-- `main` up to the start of the subscription. -/
def Process.start : Process := ⟨.new, .idle, .notCalled, false⟩

/-- What the stream, the subscriber and the timer do. -/
inductive ProcessAction
  /-- `subscribeOnce` has dialled and opened the stream -/
  | connect
  /-- the stream fails -/
  | disconnect
  /-- `Recv` returns an envelope -/
  | recv (env : Envelope)
  | apply (nowMs : ℤ)
  /-- `Subscriber.Run` revokes after a rejected envelope and returns -/
  | revoke
  | join (ok : Bool)
  /-- the non-blocking look at the heartbeat goroutine's channel -/
  | check (failed : Bool)
  /-- `runTopologySubscription` sees the cancellation -/
  | exit
  /-- a mutation cannot be published, and `OnFatal` is called for the first time -/
  | publishFails
  | fatalRevoke
  | fatalStop
  /-- the process gets a signal -/
  | cancel
deriving DecidableEq, Repr

/-- One step of the subscriber or the timer. -/
def Process.step (p : Process) : ProcessAction → Option Process
  | .connect =>
    if p.subscriber = .idle ∧ ¬p.cancelled then some { p with subscriber := .receiving } else none
  | .disconnect => if p.subscriber = .receiving then some { p with subscriber := .idle } else none
  | .recv env =>
    -- a message that has arrived is delivered even if the context is cancelled by then
    if p.subscriber = .receiving then some { p with subscriber := .received env } else none
  | .apply nowMs =>
    match p.subscriber with
    | .received env =>
      match p.lease.apply env nowMs with
      | .ok lease => some { p with lease := lease, subscriber := .joining }
      | .error _ => some { p with subscriber := .rejected }
    | _ => none
  | .revoke =>
    if p.subscriber = .rejected then some { p with lease := p.lease.revoke, subscriber := .idle }
    else none
  | .join ok =>
    if p.subscriber = .joining then
      some { p with subscriber := if ok then .checking else .idle }
    else none
  | .check failed =>
    if p.subscriber = .checking then
      some { p with subscriber := if failed then .idle else .receiving }
    else none
  | .exit =>
    if p.subscriber = .idle ∧ p.cancelled then some { p with subscriber := .stopped } else none
  | .publishFails => if p.fatal = .notCalled then some { p with fatal := .called } else none
  | .fatalRevoke =>
    if p.fatal = .called then some { p with lease := p.lease.revoke, fatal := .revoked } else none
  | .fatalStop =>
    if p.fatal = .revoked then some { p with cancelled := true, fatal := .returned } else none
  | .cancel => some { p with cancelled := true }

/-! ## The property -/

/-- `OnFatal` has revoked the lease. -/
def FatalPc.hasRevoked : FatalPc → Bool
  | .revoked | .returned => true
  | _ => false

/-- When `OnFatal` revokes, no envelope is received and not yet applied, and none is received
afterwards. -/
def NothingInFlight (p : Process) : ProcessAction → Prop
  | .fatalRevoke => ∀ env, p.subscriber ≠ .received env
  | .recv _ => p.fatal.hasRevoked = false
  | _ => True

/-! ## The invariant -/

/-- After the revocation the lease has expired and no envelope is waiting. -/
def Down (p : Process) : Prop :=
  p.fatal.hasRevoked → p.lease.validUntilUnixMs ≤ 0 ∧ ∀ env, p.subscriber ≠ .received env

/-- The subscription moves on with nothing received. -/
theorem Down.move {p : Process} (inv : Down p) {pc : SubscriberPc}
    (none : ∀ env, pc ≠ .received env) : Down { p with subscriber := pc } :=
  fun revoked => ⟨(inv revoked).1, none⟩

theorem Down.step {p u : Process} {a : ProcessAction} (inv : Down p) (ok : NothingInFlight p a)
    (h : p.step a = some u) : Down u := by
  cases a with
  | connect =>
    simp only [Process.step] at h
    split_ifs at h
    cases h
    exact inv.move (by simp)
  | disconnect =>
    simp only [Process.step] at h
    split_ifs at h
    cases h
    exact inv.move (by simp)
  | recv env =>
    simp only [Process.step] at h
    split_ifs at h
    cases h
    have before : p.fatal.hasRevoked = false := ok
    intro revoked
    exact absurd revoked (by simpa using before)
  | apply nowMs =>
    simp only [Process.step] at h
    split at h
    · next env waiting =>
      have before : p.fatal.hasRevoked = false := by
        by_contra revoked
        exact (inv (by simpa using revoked)).2 env waiting
      split at h
      · cases h
        intro revoked
        exact absurd revoked (by simpa using before)
      · cases h
        exact inv.move (by simp)
    · cases h
  | revoke =>
    simp only [Process.step] at h
    split_ifs at h
    cases h
    exact fun _ => ⟨le_rfl, by simp⟩
  | join joined =>
    simp only [Process.step] at h
    split at h
    · cases h
      exact inv.move (by cases joined <;> simp)
    · cases h
  | check failed =>
    simp only [Process.step] at h
    split at h
    · cases h
      exact inv.move (by cases failed <;> simp)
    · cases h
  | exit =>
    simp only [Process.step] at h
    split_ifs at h
    cases h
    exact inv.move (by simp)
  | publishFails =>
    simp only [Process.step] at h
    split_ifs at h
    cases h
    exact fun revoked => nomatch revoked
  | fatalRevoke =>
    simp only [Process.step] at h
    split_ifs at h
    cases h
    exact fun _ => ⟨le_rfl, ok⟩
  | fatalStop =>
    simp only [Process.step] at h
    split_ifs at h with revoked
    cases h
    intro _
    exact inv (by rw [revoked]; rfl)
  | cancel =>
    cases h
    exact inv

instance (p : Process) : DecidablePred (NothingInFlight p)
  | .fatalRevoke =>
    match h : p.subscriber with
    | .received env => isFalse fun none => none env h
    | .idle | .receiving | .rejected | .joining | .checking | .stopped =>
      isTrue fun env eq => by rw [h] at eq; cases eq
  | .recv _ => inferInstanceAs (Decidable (_ = _))
  | .connect | .disconnect | .apply _ | .revoke | .join _ | .check _ | .exit | .publishFails
  | .fatalStop | .cancel => isTrue trivial

end OlricStack.Node
