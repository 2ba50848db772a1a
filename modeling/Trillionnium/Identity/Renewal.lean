import Trillionnium.Identity.Steps
import Trillionnium.Lib.Calls

/-!
# Renewal

A renewal may put off an expiry but neither bring it forward nor clear it. A token without an expiry
takes any expiry that is not over yet, and so can lose heights at which it was active.
-/

namespace Trillionnium.Identity

open Lib IdentityRegistry OrdMap

/-- A renewal of a token without an expiry leaves it all its heights: there is none past the new
expiry, or the token was to be revoked by then. -/
def CapabilityToken.Outlasted (token : CapabilityToken) (expiresAt : Option U64) : Prop :=
  token.expiresAt = none → ∀ exp, expiresAt = some exp →
    exp = BitVec.allOnes 64 ∨ ∃ rev, token.revokedAt = some rev ∧ rev.toNat ≤ exp.toNat + 1

/-- What a renewal that returns does to the tokens. -/
structure Renewed (r : IdentityRegistry) (tokenId atHeight : U64) (expiresAt : Option U64)
    (token : CapabilityToken) (r' : IdentityRegistry) : Prop where
  found : r.capabilities.get tokenId = some token
  active : token.isActiveAt atHeight = true
  expiry : ∀ exp, expiresAt = some exp → atHeight ≤ exp
  later : ∀ exp, token.expiresAt = some exp → ∃ exp', expiresAt = some exp' ∧ exp ≤ exp'
  tokens : ∀ id, r'.capabilities.get id =
    if id = tokenId then some { token with expiresAt := expiresAt } else r.capabilities.get id

section
variable {r r' : IdentityRegistry} {actor : String} {tokenId atHeight height : U64}
  {expiresAt : Option U64} {token : CapabilityToken}

theorem CapabilityToken.isActiveAt_iff : token.isActiveAt height = true ↔ token.issuedAt ≤ height ∧
    (∀ rev, token.revokedAt = some rev → height < rev) ∧ ∀ exp, token.expiresAt = some exp →
      height ≤ exp := by
  obtain ⟨_, _, _, issuedAt, expiresAt, revokedAt⟩ := token
  cases revokedAt <;> cases expiresAt <;> simp [isActiveAt, and_comm, and_left_comm]

theorem renewCapability_renewed :
    SafeUnless Crash (renewCapability actor tokenId atHeight expiresAt) r
    fun _ r' => ∃ token, Renewed r tokenId atHeight expiresAt token r' := by
  refine .lift_bind fun _ _ => validateExpiry_bind fun hexpiry => findToken_bind fun token htoken =>
    ?_
  refine findDid_bind fun did hdid => .ensure_bind fun _ => .ensure_bind fun _ => ?_
  refine findToken_bind fun token' htoken' => .ensure_bind fun hactive =>
    validateRenewal_bind fun hlater => ?_
  obtain rfl := Option.some.inj (htoken.symm.trans htoken')
  split
  · next hsame =>
    refine .of_run rfl ⟨token, htoken, hactive, hexpiry, hlater, fun id => ?_⟩
    split
    · next heq => rw [heq, htoken, ← hsame]
    · rfl
  · refine .modify_bind ((pushAudit_returns ..).mono ?_)
    rintro _ _ ⟨event, rfl, -⟩
    refine ⟨token, htoken, hactive, hexpiry, hlater, fun id => ?_⟩
    split
    · next heq => rw [heq, addEvent, setToken, get_insert_self]
    · next hne => rw [addEvent, setToken, get_insert_ne (Ne.symm hne)]

namespace Renewed

/-- The last height at which the token can still be active is the new expiry. -/
theorem keeps (h : Renewed r tokenId atHeight expiresAt token r')
    (hlasting : token.Outlasted expiresAt) (hactive : token.isActiveAt height = true) :
    { token with expiresAt := expiresAt : CapabilityToken }.isActiveAt height = true := by
  obtain ⟨hissued, hrevoked, hexpired⟩ := CapabilityToken.isActiveAt_iff.mp hactive
  refine CapabilityToken.isActiveAt_iff.mpr ⟨hissued, hrevoked, fun exp hexp => ?_⟩
  cases hcurrent : token.expiresAt with
  | some current =>
    obtain ⟨exp', hexp', hle⟩ := h.later current hcurrent
    obtain rfl := Option.some.inj (hexp.symm.trans hexp')
    exact BitVec.le_trans (hexpired current hcurrent) hle
  | none =>
    rcases hlasting hcurrent exp hexp with rfl | ⟨rev, hrev, hle⟩
    · exact BitVec.le_def.mpr (by simpa using Nat.le_sub_one_of_lt height.isLt)
    · have hlt : height.toNat < rev.toNat := hrevoked rev hrev
      exact BitVec.le_def.mpr (by omega)

/-- Past an expiry that is too early there is a height at which the token was active. -/
theorem outlasted (h : Renewed r tokenId atHeight expiresAt token r')
    (hkept : ∀ height, token.isActiveAt height = true →
      { token with expiresAt := expiresAt : CapabilityToken }.isActiveAt height = true) :
    token.Outlasted expiresAt := by
  intro hnone exp hexp
  by_contra hearly
  obtain ⟨hlast, hrevoked⟩ := not_or.mp hearly
  have hissued := (CapabilityToken.isActiveAt_iff.mp h.active).1
  have hexpiry := h.expiry exp hexp
  have hroom : exp.toNat + 1 < 2 ^ 64 := by
    have hne : exp.toNat ≠ 2 ^ 64 - 1 := fun heq =>
      hlast (BitVec.eq_of_toNat_eq (by simpa using heq))
    have := exp.isLt
    omega
  have hnext : (exp + 1).toNat = exp.toNat + 1 := by
    simpa using Nat.mod_eq_of_lt hroom
  have hafter := hkept (exp + 1) (CapabilityToken.isActiveAt_iff.mpr ⟨?_, fun rev hrev =>
    ?_, by simp [hnone]⟩)
  · have hle := (CapabilityToken.isActiveAt_iff.mp hafter).2.2 exp hexp
    rw [BitVec.le_def] at hle
    omega
  · rw [BitVec.le_def] at hissued hexpiry ⊢
    omega
  · rw [BitVec.lt_def, hnext]
    exact Nat.lt_of_not_le fun hle => hrevoked ⟨rev, hrev, hle⟩

end Renewed

/-- A renewal that returns leaves every token the heights at which it was active, but for a token
without an expiry that is given one. -/
theorem renewCapability_keeps_heights_iff
    (h : (renewCapability actor tokenId atHeight expiresAt).run r = .ok () r') :
    (∀ id token, r.capabilities.get id = some token → ∃ token',
        r'.capabilities.get id = some token' ∧
        ∀ height, token.isActiveAt height = true → token'.isActiveAt height = true) ↔
      ∀ token, r.capabilities.get tokenId = some token → token.Outlasted expiresAt := by
  obtain ⟨token, hrenewed⟩ := renewCapability_renewed.run_ok h
  constructor
  · intro hkept found hfound
    obtain rfl := Option.some.inj (hrenewed.found.symm.trans hfound)
    obtain ⟨token', htoken', hheights⟩ := hkept tokenId token hfound
    rw [hrenewed.tokens, if_pos rfl] at htoken'
    obtain rfl := Option.some.inj htoken'
    exact hrenewed.outlasted hheights
  · intro hlasting id found hfound
    rw [hrenewed.tokens]
    split
    · next heq =>
      obtain rfl := Option.some.inj (hrenewed.found.symm.trans (heq ▸ hfound))
      exact ⟨_, rfl, fun _ => hrenewed.keeps (hlasting _ hrenewed.found)⟩
    · exact ⟨found, hfound, fun _ hactive => hactive⟩

end

/-- A token with an expiry and one without. -/
def sampleIssued : IdentityRegistry :=
  (attempt Call.perform ∅ [.registerDid "did:trnm:a" "alice" 5,
    .issueCapability "alice" "did:trnm:a" .auditRead 9 none,
    .issueCapability "alice" "did:trnm:a" .auditRead 9 (some 12)]).2

theorem sample_renewal_keeps_heights : ∃ r',
    (renewCapability "alice" 2 10 (some 20)).run sampleIssued = .ok () r' ∧
      ∀ id token, sampleIssued.capabilities.get id = some token → ∃ token',
        r'.capabilities.get id = some token' ∧
          ∀ height, token.isActiveAt height = true → token'.isActiveAt height = true := by
  refine ⟨_, rfl, (@renewCapability_keeps_heights_iff sampleIssued _ "alice" 2 10 (some 20)
    rfl).mpr ?_⟩
  intro token htoken hnone
  have hexpiry : (sampleIssued.capabilities.get 2).map (·.expiresAt) = some (some 12) := by
    decide +kernel
  rw [htoken, Option.map_some, hnone] at hexpiry
  cases hexpiry

/-- A token without an expiry was active at height 25, and no longer is once it is renewed up to
height 20. -/
theorem renewal_shortens :
    ∃ r', (renewCapability "alice" 1 10 (some 20)).run sampleIssued = .ok () r' ∧
    (sampleIssued.capabilities.get 1).map (·.isActiveAt 25) = some true ∧
      (r'.capabilities.get 1).map (·.isActiveAt 25) = some false :=
  ⟨_, rfl, by decide +kernel, by decide +kernel⟩

end Trillionnium.Identity
