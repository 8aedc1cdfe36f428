import Mathlib.Data.List.Induction
import OlricStack.Lib.Run
import OlricStack.Node.Fencing

/-!
# Histories of a lease

What a `LeaseTracker` has been through between the moment a write took its fence and the moment the
fence was verified.  The pair of generation and epoch only goes up, so a fence that still verifies
has not been through another generation; and, from the Unix epoch on, the lease it is verified
against is the one of the last accepted envelope (`verified_fence_unbroken`).  Before 1970 a revoked
lease verifies, since revoking sets the expiry to zero (`revoked_lease_verifies`).
-/

namespace OlricStack.Node

/-! ## Calls -/

/-- The calls on a `LeaseTracker`; all of them are atomic. -/
inductive LeaseCall
  | apply (env : Envelope) (nowMs : ℤ)
  | revoke
  | servingAllowed (nowMs : ℤ)
  | snapshotForWrite (nowMs : ℤ)
  | verifyFence (generation epoch nowMs : ℤ)
deriving DecidableEq, Repr

namespace Lease

/-- The envelope a call makes the tracker accept. -/
def accepted (l : Lease) : LeaseCall → Option Envelope
  | .apply env nowMs => if (l.apply env nowMs).isOk then some env else none
  | _ => none

/-- The tracker after a call. -/
def after (l : Lease) : LeaseCall → Lease
  | .apply env nowMs =>
    match l.apply env nowMs with
    | .ok l' => l'
    | .error _ => l
  | .revoke => l.revoke
  | _ => l

/-- The tracker after a sequence of calls. -/
def afterAll (l : Lease) (calls : List LeaseCall) : Lease := calls.foldl after l

/-- The pair a fence is compared by first. -/
def window (l : Lease) : ℤ ×ₗ ℤ := toLex (l.generation, l.epoch)

theorem afterAll_append (l : Lease) (calls calls' : List LeaseCall) :
    l.afterAll (calls ++ calls') = (l.afterAll calls).afterAll calls' :=
  List.foldl_append

theorem afterAll_snoc (l : Lease) (calls : List LeaseCall) (c : LeaseCall) :
    l.afterAll (calls ++ [c]) = (l.afterAll calls).after c := by
  rw [afterAll_append]
  rfl

/-- What `Apply` rejects leaves no trace. -/
theorem after_eq_of_rejected {l : Lease} {env : Envelope} {nowMs : ℤ} {err : LeaseError}
    (h : l.apply env nowMs = .error err) : l.after (.apply env nowMs) = l := by
  simp only [after, h]

/-- An accepted envelope is a primary's, and the lease becomes the one it grants. -/
theorem after_eq_of_accepted {l : Lease} {c : LeaseCall} {env : Envelope}
    (h : l.accepted c = some env) :
    env.role = .primary ∧ l.after c = ⟨env.generation, env.epoch, env.validUntilUnixMs⟩ ∧
      l.window ≤ toLex (env.generation, env.epoch) := by
  cases c with
  | apply env' nowMs =>
    simp only [accepted] at h
    split_ifs at h with ok
    obtain rfl := Option.some.inj h
    rw [window, Prod.Lex.toLex_le_toLex]
    simp only [after, apply] at ok ⊢
    split_ifs at ok ⊢ with role expired older newer stale
    all_goals cases ok
    · exact ⟨not_not.1 role, rfl, .inl newer⟩
    · obtain same : l.generation = env'.generation := by omega
      exact ⟨not_not.1 role, by rw [same], .inr ⟨same, not_lt.1 stale⟩⟩
  | revoke | servingAllowed _ | snapshotForWrite _ | verifyFence _ _ _ => cases h

/-- Without an accepted envelope only a revocation changes the lease, and only its expiry. -/
theorem after_of_not_accepted {l : Lease} {c : LeaseCall} (h : l.accepted c = none) :
    c = .revoke ∧ l.after c = l.revoke ∨ l.after c = l := by
  cases c with
  | apply env nowMs =>
    simp only [accepted] at h
    split_ifs at h with ok
    refine .inr ?_
    simp only [after]
    split
    · next l' accepted => exact absurd (by rw [accepted]; rfl) ok
    · rfl
  | revoke => exact .inl ⟨rfl, rfl⟩
  | servingAllowed _ | snapshotForWrite _ | verifyFence _ _ _ => exact .inr rfl

theorem window_le_after (l : Lease) (c : LeaseCall) : l.window ≤ (l.after c).window := by
  rcases h : l.accepted c with _ | env
  · rcases after_of_not_accepted h with ⟨-, same⟩ | same
    · rw [same]
      exact le_rfl
    · rw [same]
  · obtain ⟨-, same, le⟩ := after_eq_of_accepted h
    rw [same]
    exact le

/-- Generation and epoch never go back. -/
theorem window_le_afterAll (l : Lease) (calls : List LeaseCall) :
    l.window ≤ (l.afterAll calls).window := by
  induction calls using List.reverseRecOn with
  | nil => exact le_rfl
  | append_singleton calls c ih =>
    rw [afterAll_snoc]
    exact ih.trans (window_le_after _ c)

/-! ## The envelope a lease stands on -/

/-- No call accepts an envelope or revokes. -/
def Undisturbed (l : Lease) (calls : List LeaseCall) : Prop :=
  ∀ before c later, calls = before ++ c :: later →
    (l.afterAll before).accepted c = none ∧ c ≠ .revoke

/-- `env` is the last envelope accepted, and nothing was revoked since. -/
def StandsOn (l : Lease) (calls : List LeaseCall) (env : Envelope) : Prop :=
  ∃ before c later, calls = before ++ c :: later ∧ (l.afterAll before).accepted c = some env ∧
    ((l.afterAll before).after c).Undisturbed later

theorem Undisturbed.snoc {l : Lease} {calls : List LeaseCall} (h : l.Undisturbed calls)
    {c : LeaseCall} (none : (l.afterAll calls).accepted c = none) (keeps : c ≠ .revoke) :
    l.Undisturbed (calls ++ [c]) := by
  intro before d later split
  rcases Transition.snoc_eq_split_cases split with ⟨later, old⟩ | ⟨rfl, rfl⟩
  · exact h before d later old
  · exact ⟨none, keeps⟩

/-- The expiry of a new tracker is zero, or that of the envelope it stands on. -/
theorem validUntil_eq (calls : List LeaseCall) :
    (new.afterAll calls).validUntilUnixMs = 0 ∨
      ∃ env, new.StandsOn calls env ∧
        (new.afterAll calls).validUntilUnixMs = env.validUntilUnixMs := by
  induction calls using List.reverseRecOn with
  | nil => exact .inl rfl
  | append_singleton calls c ih =>
    rw [afterAll_snoc]
    rcases h : (new.afterAll calls).accepted c with _ | env
    · rcases after_of_not_accepted h with ⟨-, same⟩ | same
      · rw [same]
        exact .inl rfl
      · by_cases keeps : c = .revoke
        · subst keeps
          exact .inl rfl
        rw [same]
        refine ih.imp_right ?_
        rintro ⟨env, ⟨before, d, later, rfl, accepted, undisturbed⟩, valid⟩
        refine ⟨env, ⟨before, d, later ++ [c], by simp, accepted, ?_⟩, valid⟩
        refine undisturbed.snoc ?_ keeps
        rwa [afterAll_append] at h
    · obtain ⟨-, same, -⟩ := after_eq_of_accepted h
      refine .inr ⟨env, ⟨calls, c, [], rfl, h, ?_⟩, by rw [same]⟩
      intro before d later split
      simp at split

end Lease

/-- Take a new tracker and any calls on it.  A rejected `Apply` changes nothing, and generation and
epoch never go back.  If a fence was taken after `calls` and verifies after the further `between`,
then all along it was the tracker's generation and the epoch was not below it, every envelope
accepted in between was a primary's of that generation, and, for a clock at or after the Unix epoch,
the last envelope accepted is valid beyond the verification and was not followed by a revocation. -/
theorem verified_fence_unbroken (calls between : List LeaseCall) {t₁ t₂ generation epoch : ℤ}
    (taken : (Lease.new.afterAll calls).snapshotForWrite t₁ = some (generation, epoch))
    (verified : (Lease.new.afterAll (calls ++ between)).verifyFence generation epoch t₂ = true) :
    (∀ l env nowMs err, Lease.apply l env nowMs = .error err → l.after (.apply env nowMs) = l) ∧
    (∀ l : Lease, ∀ more, l.window ≤ (l.afterAll more).window) ∧
    (∀ before later, between = before ++ later →
      (Lease.new.afterAll (calls ++ before)).generation = generation ∧
        epoch ≤ (Lease.new.afterAll (calls ++ before)).epoch) ∧
    (∀ before c later env, between = before ++ c :: later →
      (Lease.new.afterAll (calls ++ before)).accepted c = some env →
        env.role = .primary ∧ env.generation = generation) ∧
    (0 ≤ t₂ → ∃ env, Lease.new.StandsOn (calls ++ between) env ∧ t₂ < env.validUntilUnixMs) := by
  obtain ⟨rfl, rfl⟩ := Prod.mk.inj (Lease.eq_of_snapshotForWrite taken)
  obtain ⟨valid, same⟩ : t₂ < (Lease.new.afterAll (calls ++ between)).validUntilUnixMs ∧
      (Lease.new.afterAll (calls ++ between)).generation =
        (Lease.new.afterAll calls).generation := by
    unfold Lease.verifyFence at verified
    split_ifs at verified with expired moved back
    exact ⟨not_le.1 expired, not_not.1 moved⟩
  -- generation and epoch at a point in between are squeezed between the two ends
  have squeezed : ∀ before later, between = before ++ later →
      (Lease.new.afterAll (calls ++ before)).generation = (Lease.new.afterAll calls).generation ∧
        (Lease.new.afterAll calls).epoch ≤ (Lease.new.afterAll (calls ++ before)).epoch := by
    rintro before later rfl
    have low := (Lease.new.afterAll calls).window_le_afterAll before
    have high := (Lease.new.afterAll (calls ++ before)).window_le_afterAll later
    rw [← Lease.afterAll_append, Lease.window, Lease.window, Prod.Lex.toLex_le_toLex] at low high
    rw [List.append_assoc, same] at high
    dsimp only at low high
    omega
  refine ⟨fun l env nowMs err h => Lease.after_eq_of_rejected h,
    fun l more => l.window_le_afterAll more, squeezed, ?_, fun nonneg => ?_⟩
  · rintro before c later env rfl accepted
    obtain ⟨role, granted, -⟩ := Lease.after_eq_of_accepted accepted
    have next := (squeezed (before ++ [c]) later (by simp)).1
    rw [← List.append_assoc, Lease.afterAll_snoc, granted] at next
    exact ⟨role, next⟩
  · rcases Lease.validUntil_eq (calls ++ between) with zero | ⟨env, stands, eq⟩
    · omega
    · exact ⟨env, stands, by omega⟩

/-- A fence taken in epoch 1 verifies after an envelope of epoch 2 and one that was rejected. -/
theorem verified_fence_unbroken_by_epoch :
    ∃ env, Lease.new.StandsOn ([.apply ⟨.primary, 1, 1, 100⟩ 0] ++
        [.apply ⟨.primary, 1, 2, 200⟩ 50, .apply ⟨.standby, 2, 0, 300⟩ 60]) env ∧
      70 < env.validUntilUnixMs :=
  (verified_fence_unbroken [.apply ⟨.primary, 1, 1, 100⟩ 0]
    [.apply ⟨.primary, 1, 2, 200⟩ 50, .apply ⟨.standby, 2, 0, 300⟩ 60]
    (show _ = some (1, 1) by decide : (Lease.new.afterAll _).snapshotForWrite 10 = _)
    (by decide : (Lease.new.afterAll _).verifyFence 1 1 70 = true)).2.2.2.2 (by decide)

/-- With the clock before 1970, a fence verifies although the lease was revoked after it was
taken. -/
theorem revoked_lease_verifies :
    let calls := [LeaseCall.apply ⟨.primary, 1, 1, 100⟩ (-20)]
    (Lease.new.afterAll calls).snapshotForWrite (-20) = some (1, 1) ∧
      (Lease.new.afterAll (calls ++ [.revoke])).verifyFence 1 1 (-10) = true := by
  decide

end OlricStack.Node
