import Trillionnium.Hash
import Trillionnium.Identity.Registry
import Trillionnium.Lib.Canonical
import Trillionnium.Lib.Code

/-!
# The content hash

`content_hash` writes the texts of a registry one after another with nothing between them.
Registries whose texts have the same lengths at the same places are told apart by it, and no others
are: the end of one text can be moved to the beginning of the next.
-/

namespace Trillionnium.Identity

open Lib
open Pon (Hash)

/-! ## What is hashed -/

def littleEndian (n : U64) : Bytes := Bytes.ofNat 8 n.toNat

def CapabilityScope.byte : CapabilityScope → UInt8
  | .bridgeSettle => 1
  | .bridgeRevert => 2
  | .auditRead => 3
  | .marketPublish => 4
  | .marketExecute => 5

def AuditAction.tag : AuditAction → UInt8
  | .didRegistered => 1
  | .didRevoked => 2
  | .capabilityIssued => 3
  | .capabilityRenewed => 4
  | .capabilityRevoked => 5

def didPieces (entry : String × DidRecord) : List Bytes :=
  [.ofString entry.1, .ofString entry.2.did, .ofString entry.2.controller,
    littleEndian entry.2.createdAt, Bytes.optional littleEndian entry.2.revokedAt]

def tokenPieces (entry : U64 × CapabilityToken) : List Bytes :=
  [littleEndian entry.1, littleEndian entry.2.tokenId, .ofString entry.2.subjectDid,
    [entry.2.scope.byte], littleEndian entry.2.issuedAt,
    Bytes.optional littleEndian entry.2.expiresAt, Bytes.optional littleEndian entry.2.revokedAt]

def eventPieces (event : AuditEvent) : List Bytes :=
  [littleEndian event.seq, [event.action.tag], .ofString event.actor, .ofString event.subject,
    littleEndian event.atHeight, Bytes.optional .ofString event.note]

namespace IdentityRegistry

def contentMessage (r : IdentityRegistry) : Bytes :=
  .ofString "dids" ++ (r.dids.entries.flatMap (fun entry => (didPieces entry).flatten) ++
    (.ofString "caps" ++ (r.capabilities.entries.flatMap (fun entry =>
      (tokenPieces entry).flatten) ++
      (.ofString "audit" ++ littleEndian (.ofNat 64 r.auditTrail.length) ++
        (r.auditTrail.flatMap (fun event => (eventPieces event).flatten) ++
          littleEndian r.nextCapabilityId)))))

def contentHash (sha256 : Bytes → Hash) (r : IdentityRegistry) : Hash := sha256 r.contentMessage

/-- How many records of each kind there are, and the lengths of the pieces of each. -/
def layout (r : IdentityRegistry) : List (List Nat) × List (List Nat) × List (List Nat) :=
  (r.dids.entries.map fun entry => (didPieces entry).map List.length,
    r.capabilities.entries.map fun entry => (tokenPieces entry).map List.length,
    r.auditTrail.map fun event => (eventPieces event).map List.length)

end IdentityRegistry

/-! ## Pieces -/

theorem littleEndian_inj : littleEndian.Injective := fun m n h =>
  (Code.uint 64 8 (by decide)).encode_inj rfl (congrArg some h.symm)

theorem ofString_injective : Bytes.ofString.Injective := fun _ _ => Bytes.ofString_inj

theorem CapabilityScope.byte_inj : CapabilityScope.byte.Injective := by
  intro a b h
  cases a <;> cases b <;> first | rfl | cases h

theorem AuditAction.tag_inj : AuditAction.tag.Injective := by
  intro a b h
  cases a <;> cases b <;> first | rfl | cases h

theorem didPieces_inj : didPieces.Injective := by
  rintro ⟨key, did, controller, createdAt, revokedAt⟩ ⟨key', did', controller', createdAt',
    revokedAt'⟩ h
  simpa [didPieces, ofString_injective.eq_iff, littleEndian_inj.eq_iff,
    (Bytes.optional_inj littleEndian_inj).eq_iff] using h

theorem tokenPieces_inj : tokenPieces.Injective := by
  rintro ⟨key, tokenId, subjectDid, scope, issuedAt, expiresAt, revokedAt⟩
    ⟨key', tokenId', subjectDid', scope', issuedAt', expiresAt', revokedAt'⟩ h
  simpa [tokenPieces, ofString_injective.eq_iff, littleEndian_inj.eq_iff,
    CapabilityScope.byte_inj.eq_iff, (Bytes.optional_inj littleEndian_inj).eq_iff] using h

theorem eventPieces_inj : eventPieces.Injective := by
  rintro ⟨seq, action, actor, subject, atHeight, note⟩ ⟨seq', action', actor', subject',
    atHeight', note'⟩ h
  simpa [eventPieces, ofString_injective.eq_iff, littleEndian_inj.eq_iff,
    AuditAction.tag_inj.eq_iff, (Bytes.optional_inj ofString_injective).eq_iff] using h

/-! ## Registries -/

namespace IdentityRegistry
variable {r r' : IdentityRegistry}

/-- The tables are read one after another; each ends where its layout says. -/
theorem eq_of_contentMessage (hlayout : r.layout = r'.layout)
    (h : r.contentMessage = r'.contentMessage) :
    r = r' := by
  obtain ⟨dids, tokens, trail, next⟩ := r
  obtain ⟨dids', tokens', trail', next'⟩ := r'
  simp only [layout, Prod.mk.injEq] at hlayout
  obtain ⟨hdids, htokens, htrail⟩ := hlayout
  have hlength : trail.length = trail'.length := by simpa using congrArg List.length htrail
  simp only [contentMessage] at h
  obtain ⟨hdids, h⟩ := flatMap_pieces_inj didPieces_inj hdids (List.append_cancel_left h)
  obtain ⟨htokens, h⟩ := flatMap_pieces_inj tokenPieces_inj htokens (List.append_cancel_left h)
  rw [hlength] at h
  obtain ⟨rfl, hnext⟩ := flatMap_pieces_inj eventPieces_inj htrail (List.append_cancel_left h)
  rw [OrdMap.ext_entries hdids, OrdMap.ext_entries htokens, littleEndian_inj hnext]

/-- Registries with one content hash are the same exactly when their texts have the same lengths. -/
theorem contentHash_identifies_iff {sha256 : Bytes → Hash}
    (hclean : Set.InjOn sha256 {r.contentMessage, r'.contentMessage})
    (h : r.contentHash sha256 = r'.contentHash sha256) : r = r' ↔ r.layout = r'.layout := by
  refine ⟨congrArg layout, fun hlayout => eq_of_contentMessage hlayout ?_⟩
  exact hclean (Set.mem_insert _ _) (Set.mem_insert_of_mem _ rfl) h

end IdentityRegistry

/-- One identifier whose record names another and its controller. -/
def sampleContent (did controller : String) : IdentityRegistry :=
  ⟨.ofList [("did:trnm:a", ⟨did, controller, 5, none⟩)], ∅, [], 0⟩

theorem contentMessage_sample : (sampleContent "did:trnm:a" "bob").contentMessage =
    (sampleContent "did:trnm:ab" "ob").contentMessage := by
  decide +kernel

/-- The texts of two registries with one hash have other lengths. -/
theorem sample_contentHash_identifies :
    (sampleContent "did:trnm:a" "bob").layout ≠ (sampleContent "did:trnm:ab" "ob").layout := by
  have hiff := @IdentityRegistry.contentHash_identifies_iff _ _ Hash.checksum
    (by simp [contentMessage_sample]) (congrArg Hash.checksum contentMessage_sample)
  exact hiff.not.mp (by decide +kernel)

/-- A letter moved from the controller to the identifier leaves the hash the same, whatever the hash
function. -/
theorem controller_not_hashed :
    sampleContent "did:trnm:a" "bob" ≠ sampleContent "did:trnm:ab" "ob" ∧ ∀ sha256 : Bytes → Hash,
      (sampleContent "did:trnm:a" "bob").contentHash sha256 =
        (sampleContent "did:trnm:ab" "ob").contentHash sha256 :=
  ⟨by decide +kernel, fun sha256 => congrArg sha256 contentMessage_sample⟩

end Trillionnium.Identity
