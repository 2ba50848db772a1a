import Trillionnium.Mvcc.Types

/-!
# Records of the data-availability kernel

The committee, batch envelopes, attestations, certificates and the evidence of equivocation of
`types.rs`, with their Borsh encoding and the digests of `codec.rs`. Identifiers and keys are 32
bytes. SHA-256 and Ed25519 are parameters (`Crypto`).
-/

namespace Trillionnium.DataAvailability

open Lib Pon
open Mvcc (Borsh u16 u32 u64 u128 hash32 bytes)

def u8 : Borsh U8 := .uint 8 1 Code.byte_fits

/-! ## Errors -/

inductive ErrorCode where
  | invalidContext
  | unsupportedNamespace
  | invalidBounds
  | nonCanonical
  | identifierMismatch
  | invalidSignature
  | invalidCommittee
  | insufficientWeight
  | unauthorizedAuthor
  | sequenceConflict
  | quotaExceeded
  | queueFull
  | storeFailure
  | schemaMismatch
  | tamperDetected
  | conflict
  | notFound
  | invalidState
  | retentionViolation
  | earlyGarbageCollection
  | invalidRepair
  | invalidRange
  | invalidWithholdingEvidence
  | arithmeticOverflow
  deriving DecidableEq

structure DaError where
  code : ErrorCode
  message : String
  deriving DecidableEq

abbrev DaResult (α : Type) := Except DaError α

abbrev overflow (message : String) : DaError := ⟨.arithmeticOverflow, message⟩

/-! ## Primitives -/

structure Crypto where
  sha256 : Bytes → Hash
  /-- The 32 bytes are an Ed25519 public key. -/
  isKey : Hash → Bool
  isWeak : Hash → Bool
  /-- Strict verification of a 64-byte signature of a message. -/
  verify : Hash → Bytes → Bytes → Bool

/-- `canonical_bytes`: a vector whose length does not fit `u32` is not written. -/
def canonicalBytes {α : Type} (c : Borsh α) (value : α) : DaResult Bytes :=
  getOr (c.encode value) ⟨.nonCanonical, "invalid data"⟩

/-- `strict_decode`: all bytes are read, and the value is written back as the same bytes. -/
def strictDecode {α : Type} (c : Borsh α) (bs : Bytes) : DaResult α := do
  let (value, rest) ← getOr (c.decode bs) ⟨.nonCanonical, "Unexpected length of input"⟩
  require (rest = []) ⟨.nonCanonical, "Not all bytes read"⟩
  let again ← canonicalBytes c value
  require (again = bs) ⟨.nonCanonical, "candidate CEV1 bytes do not round-trip exactly"⟩
  return value

theorem canonicalBytes_eq_ok {α : Type} {c : Borsh α} {value : α} {bs : Bytes} :
    canonicalBytes c value = .ok bs ↔ c.encode value = some bs := getOr_eq_ok

/-- What is decoded strictly is what was written. -/
theorem strictDecode_eq_ok {α : Type} {c : Borsh α} {bs : Bytes} {value : α} :
    strictDecode c bs = .ok value ↔ c.encode value = some bs := by
  simp only [strictDecode, bind_eq_ok, getOr_eq_ok, require_eq_ok, canonicalBytes_eq_ok, pure_eq_ok]
  constructor
  · rintro ⟨⟨v, rest⟩, -, _, -, again, hagain, _, rfl, rfl⟩
    exact hagain
  · intro h
    have hdecode := c.decode_encode h []
    rw [List.append_nil] at hdecode
    exact ⟨(value, []), hdecode, (), rfl, bs, h, (), rfl, rfl⟩

def digestMessage (domain : String) (encoded : Bytes) : Bytes :=
  Bytes.ofNat 4 (Bytes.ofString domain).length ++ Bytes.ofString domain ++ encoded

def digestEncoded (crypto : Crypto) (domain : String) (encoded : Bytes) : DaResult Hash := do
  require (Bytes.ofString domain ≠ [] ∧ (Bytes.ofString domain).all (· < 128))
    ⟨.invalidBounds, "digest domain must be nonempty ASCII"⟩
  require ((Bytes.ofString domain).length < 2 ^ 32) (overflow "digest domain exceeds u32")
  return crypto.sha256 (digestMessage domain encoded)

def digestValue {α : Type} (crypto : Crypto) (domain : String) (c : Borsh α) (value : α) :
    DaResult Hash := do
  let encoded ← canonicalBytes c value
  digestEncoded crypto domain encoded

def verifyStrict (crypto : Crypto) (publicKey : Hash) (message signature : Bytes) :
    DaResult Unit := do
  require (crypto.isKey publicKey) ⟨.invalidSignature, "invalid Ed25519 public key"⟩
  require (¬ crypto.isWeak publicKey) ⟨.invalidSignature, "weak Ed25519 public key"⟩
  require (signature.length = 64) ⟨.invalidSignature, "invalid Ed25519 signature length"⟩
  require (crypto.verify publicKey message signature)
    ⟨.invalidSignature, "strict Ed25519 verification failed"⟩

/-! ## Context -/

abbrev DaNamespace := U8

def transactionBatchNamespace : DaNamespace := 0

def transactionBatchOnly (tag : U8) : DaResult DaNamespace :=
  if tag = 0 then .ok 0
  else if tag = 1 then
    .error ⟨.unsupportedNamespace, "ArtifactEvidence is outside this candidate tranche"⟩
  else .error ⟨.unsupportedNamespace, "unknown DA namespace"⟩

structure ProtocolContext where
  schemaVersion : U16
  genesisHash : Hash
  chainId : Bytes
  protocolVersion : U32
  stackProfileHash : Hash
  deriving DecidableEq

def ProtocolContext.code : Borsh ProtocolContext :=
  (u16.pair <| hash32.pair <| bytes.pair <| u32.pair hash32).record
    (fun ⟨a, b, c, d, e⟩ => (a, b, c, d, e)) ↿ProtocolContext.mk fun _ => rfl

def ProtocolContext.validate (context : ProtocolContext) : DaResult Unit := do
  require (context.schemaVersion = 1 ∧ context.protocolVersion = 1)
    ⟨.invalidContext, "unsupported context version"⟩
  require (context.chainId ≠ [] ∧ context.chainId.length ≤ 128 ∧ context.chainId.all (· < 128))
    ⟨.invalidContext, "chain ID must be bounded nonempty ASCII"⟩

/-! ## Committee -/

structure DaMemberBody where
  attestationKeyScheme : U16
  attestationPublicKey : Hash
  weight : U128
  validatorId : Option Bytes
  storageServiceCommitment : Hash
  slashableBondReference : Hash

def DaMemberBody.code : Borsh DaMemberBody :=
  (u16.pair <| hash32.pair <| u128.pair <| bytes.option.pair <| hash32.pair hash32).record
    (fun ⟨a, b, c, d, e, f⟩ => (a, b, c, d, e, f)) ↿DaMemberBody.mk fun _ => rfl

structure DaMember where
  body : DaMemberBody
  memberDefinitionHash : Hash

namespace DaMember

def code : Borsh DaMember :=
  (DaMemberBody.code.pair hash32).record
    (fun x => (x.body, x.memberDefinitionHash)) ↿DaMember.mk fun _ => rfl

def definitionHash (member : DaMember) : Hash := member.memberDefinitionHash

def publicKey (member : DaMember) : Hash := member.body.attestationPublicKey

def weight (member : DaMember) : U128 := member.body.weight

def validate (crypto : Crypto) (member : DaMember) : DaResult Unit := do
  require (member.body.attestationKeyScheme = 0 ∧ member.body.weight ≠ 0)
    ⟨.invalidCommittee, "invalid DA member definition"⟩
  let digest ← digestValue crypto "trnm.portable.v2.da-member.v1" DaMemberBody.code member.body
  require (digest = member.memberDefinitionHash)
    ⟨.invalidCommittee, "invalid DA member definition"⟩
  require (crypto.isKey member.publicKey) ⟨.invalidCommittee, "invalid DA member Ed25519 key"⟩
  require (¬ crypto.isWeak member.publicKey)
    ⟨.invalidCommittee, "weak DA member key is forbidden"⟩

end DaMember

structure DaCommitteeDescriptor where
  schemaVersion : U16
  context : ProtocolContext
  namespaceTag : DaNamespace
  epoch : U64
  members : List DaMember
  thresholdWeight : U128
  retentionEpochs : U32
  maxAuthorBytes : U64
  maxBatchBytes : U64
  maxBatchItems : U32
  maxOutstandingSequences : U32

/-- What the loop of `checked_member_total` has seen. -/
structure MemberTotal where
  prior : Option Hash
  keys : List Hash
  total : U128

def MemberTotal.add (crypto : Crypto) (s : MemberTotal) (member : DaMember) :
    DaResult MemberTotal := do
  member.validate crypto
  require ((∀ value ∈ s.prior, value < member.definitionHash) ∧ member.publicKey ∉ s.keys)
    ⟨.invalidCommittee, "DA members must be strictly ordered with unique keys"⟩
  let total ← checkedAdd s.total member.weight (overflow "DA committee weight overflow")
  return ⟨some member.definitionHash, member.publicKey :: s.keys, total⟩

def checkedMemberTotal (crypto : Crypto) (members : List DaMember) : DaResult U128 := do
  require (members ≠ []) ⟨.invalidCommittee, "DA committee must not be empty"⟩
  let s ← members.foldlM (MemberTotal.add crypto) ⟨none, [], 0⟩
  return s.total

namespace DaCommitteeDescriptor

def code : Borsh DaCommitteeDescriptor :=
  (u16.pair <| ProtocolContext.code.pair <| u8.pair <| u64.pair <| DaMember.code.vec.pair <|
    u128.pair <| u32.pair <| u64.pair <| u64.pair <| u32.pair u32).record
    (fun ⟨a, b, c, d, e, f, g, h, i, j, k⟩ => (a, b, c, d, e, f, g, h, i, j, k))
      ↿DaCommitteeDescriptor.mk fun _ => rfl

/-- `total.checked_mul(2)`, `checked_div(3)`, `checked_add(1)`. -/
def quorum (total : U128) : DaResult U128 := do
  let doubled ← checkedMul total 2 (overflow "committee quorum calculation overflow")
  checkedAdd (doubled / 3) 1 (overflow "committee quorum calculation overflow")

def validate (crypto : Crypto) (committee : DaCommitteeDescriptor) : DaResult Unit := do
  committee.context.validate
  let _ ← transactionBatchOnly committee.namespaceTag
  require (committee.schemaVersion = 1 ∧ committee.retentionEpochs ≠ 0 ∧
      committee.maxAuthorBytes ≠ 0 ∧ committee.maxBatchBytes ≠ 0 ∧ committee.maxBatchItems ≠ 0 ∧
      committee.maxOutstandingSequences ≠ 0)
    ⟨.invalidCommittee, "invalid committee bounds"⟩
  let total ← checkedMemberTotal crypto committee.members
  let expected ← quorum total
  require (committee.thresholdWeight = expected ∧ committee.thresholdWeight ≤ total)
    ⟨.invalidCommittee, "committee threshold is not floor(2W/3)+1"⟩

/-- The constructor: here the doubling has an error text of its own. -/
def newTransactionBatch (crypto : Crypto) (context : ProtocolContext) (epoch : U64)
    (members : List DaMember) (retentionEpochs : U32) (maxAuthorBytes maxBatchBytes : U64)
    (maxBatchItems maxOutstandingSequences : U32) : DaResult DaCommitteeDescriptor := do
  let total ← checkedMemberTotal crypto members
  let doubled ← checkedMul total 2 (overflow "committee quorum multiplication overflow")
  let thresholdWeight ← checkedAdd (doubled / 3) 1
    (overflow "committee quorum calculation overflow")
  let descriptor : DaCommitteeDescriptor := ⟨1, context, transactionBatchNamespace, epoch, members,
    thresholdWeight, retentionEpochs, maxAuthorBytes, maxBatchBytes, maxBatchItems,
    maxOutstandingSequences⟩
  descriptor.validate crypto
  return descriptor

def committeeId (crypto : Crypto) (committee : DaCommitteeDescriptor) : DaResult Hash := do
  committee.validate crypto
  digestValue crypto "trnm.portable.v2.da-committee.v1" code committee

/-- The binary search by definition hash, on members that are strictly ordered by it. -/
def member (committee : DaCommitteeDescriptor) (id : Hash) : Option DaMember :=
  committee.members.find? fun m => m.definitionHash = id

end DaCommitteeDescriptor

/-! ## Batch envelopes -/

structure DaBatchEnvelope where
  schemaVersion : U16
  context : ProtocolContext
  namespaceTag : DaNamespace
  epoch : U64
  committeeId : Hash
  authorId : Bytes
  authorSequence : U64
  contentKind : U16
  contentCodecId : Hash
  itemCount : U32
  uncompressedBytes : U64
  contentRoot : Hash
  chunkingProfileId : Hash
  chunkCount : U32
  chunkRoot : Hash
  retentionEndEpoch : U64
  deriving DecidableEq

namespace DaBatchEnvelope

def code : Borsh DaBatchEnvelope :=
  (u16.pair <| ProtocolContext.code.pair <| u8.pair <| u64.pair <| hash32.pair <| bytes.pair <|
    u64.pair <| u16.pair <| hash32.pair <| u32.pair <| u64.pair <| hash32.pair <| hash32.pair <|
    u32.pair <| hash32.pair u64).record
    (fun ⟨a, b, c, d, e, f, g, h, i, j, k, l, m, n, o, p⟩ =>
      (a, b, c, d, e, f, g, h, i, j, k, l, m, n, o, p))
    ↿DaBatchEnvelope.mk fun _ => rfl

def validateShape (envelope : DaBatchEnvelope) : DaResult Unit := do
  envelope.context.validate
  let _ ← transactionBatchOnly envelope.namespaceTag
  require (envelope.schemaVersion = 1 ∧ envelope.authorId ≠ [] ∧ envelope.authorSequence ≠ 0 ∧
      envelope.contentKind = 0 ∧ envelope.itemCount ≠ 0 ∧ envelope.uncompressedBytes ≠ 0 ∧
      envelope.chunkCount ≠ 0 ∧ envelope.epoch < envelope.retentionEndEpoch)
    ⟨.invalidBounds, "invalid transaction-batch envelope"⟩

def batchId (crypto : Crypto) (envelope : DaBatchEnvelope) : DaResult Hash := do
  envelope.validateShape
  digestValue crypto "trnm.portable.v2.da-batch.v1" code envelope

end DaBatchEnvelope

structure DaBatchAuthorStatement where
  schemaVersion : U16
  context : ProtocolContext
  namespaceTag : DaNamespace
  epoch : U64
  committeeId : Hash
  authorId : Bytes
  authorSequence : U64
  batchId : Hash
  deriving DecidableEq

def DaBatchAuthorStatement.code : Borsh DaBatchAuthorStatement :=
  (u16.pair <| ProtocolContext.code.pair <| u8.pair <| u64.pair <| hash32.pair <| bytes.pair <|
    u64.pair hash32).record
    (fun ⟨a, b, c, d, e, f, g, h⟩ => (a, b, c, d, e, f, g, h)) ↿DaBatchAuthorStatement.mk fun _ =>
      rfl

/-- The statement an author signs for an envelope. -/
def DaBatchEnvelope.statement (crypto : Crypto) (envelope : DaBatchEnvelope) :
    DaResult DaBatchAuthorStatement := do
  let batchId ← envelope.batchId crypto
  return ⟨1, envelope.context, envelope.namespaceTag, envelope.epoch, envelope.committeeId,
    envelope.authorId, envelope.authorSequence, batchId⟩

structure DaBatchAuthor where
  statement : DaBatchAuthorStatement
  authorKeyScheme : U16
  authorPublicKey : Hash
  signature : Bytes
  deriving DecidableEq

namespace DaBatchAuthor

def code : Borsh DaBatchAuthor :=
  (DaBatchAuthorStatement.code.pair <| u16.pair <| hash32.pair bytes).record
    (fun ⟨a, b, c, d⟩ => (a, b, c, d)) ↿DaBatchAuthor.mk fun _ => rfl

def signingRoot (crypto : Crypto) (envelope : DaBatchEnvelope) : DaResult Hash := do
  let statement ← envelope.statement crypto
  digestValue crypto "trnm.portable.v2.da-batch-author-signature.v1" DaBatchAuthorStatement.code
    statement

/-- The schema version of the statement is not compared: the signature is checked over a statement
written anew from the envelope. -/
def verify (crypto : Crypto) (author : DaBatchAuthor) (envelope : DaBatchEnvelope) :
    DaResult Unit := do
  require (author.authorKeyScheme = 0 ∧ author.statement.context = envelope.context ∧
      author.statement.namespaceTag = envelope.namespaceTag ∧
      author.statement.epoch = envelope.epoch ∧
      author.statement.committeeId = envelope.committeeId ∧
      author.statement.authorId = envelope.authorId ∧
      author.statement.authorSequence = envelope.authorSequence)
    ⟨.invalidSignature, "author statement does not bind the envelope"⟩
  let batchId ← envelope.batchId crypto
  require (author.statement.batchId = batchId)
    ⟨.invalidSignature, "author statement does not bind the envelope"⟩
  let root ← signingRoot crypto envelope
  verifyStrict crypto author.authorPublicKey root.bytes author.signature

end DaBatchAuthor

/-! ## Attestations -/

structure DaAttestationBody where
  schemaVersion : U16
  context : ProtocolContext
  namespaceTag : DaNamespace
  epoch : U64
  committeeId : Hash
  batchId : Hash
  contentRoot : Hash
  chunkRoot : Hash
  retentionEndEpoch : U64
  attestorId : Hash
  authorId : Bytes
  authorSequence : U64
  attestationSequence : U64
  storageRecordChecksum : Hash
  deriving DecidableEq

/-- What two attestations of one attestor must not disagree about. -/
abbrev Coordinate := ProtocolContext × DaNamespace × U64 × Hash × Bytes × U64

def coordinateCode : Borsh Coordinate :=
  ProtocolContext.code.pair <| u8.pair <| u64.pair <| hash32.pair <| bytes.pair u64

namespace DaAttestationBody

def code : Borsh DaAttestationBody :=
  (u16.pair <| ProtocolContext.code.pair <| u8.pair <| u64.pair <| hash32.pair <| hash32.pair <|
    hash32.pair <| hash32.pair <| u64.pair <| hash32.pair <| bytes.pair <| u64.pair <|
    u64.pair hash32).record
    (fun ⟨a, b, c, d, e, f, g, h, i, j, k, l, m, n⟩ => (a, b, c, d, e, f, g, h, i, j, k, l, m, n))
      ↿DaAttestationBody.mk fun _ => rfl

def ofEnvelope (envelope : DaBatchEnvelope) (batchId attestorId : Hash) (attestationSequence : U64)
    (storageRecordChecksum : Hash) : DaAttestationBody :=
  ⟨1, envelope.context, envelope.namespaceTag, envelope.epoch, envelope.committeeId, batchId,
    envelope.contentRoot, envelope.chunkRoot, envelope.retentionEndEpoch, attestorId,
    envelope.authorId, envelope.authorSequence, attestationSequence, storageRecordChecksum⟩

def coordinate (body : DaAttestationBody) : Coordinate :=
  (body.context, body.namespaceTag, body.epoch, body.attestorId, body.authorId, body.authorSequence)

def conflictCoordinate (crypto : Crypto) (body : DaAttestationBody) : DaResult Hash :=
  digestValue crypto "trnm.portable.v2.da-attestation-conflict-coordinate.candidate.v1"
    coordinateCode body.coordinate

def validate (crypto : Crypto) (body : DaAttestationBody) (committee : DaCommitteeDescriptor) :
    DaResult Unit := do
  body.context.validate
  let _ ← transactionBatchOnly body.namespaceTag
  require (body.schemaVersion = 1 ∧ body.context = committee.context ∧
      body.epoch = committee.epoch)
    ⟨.invalidContext, "attestation does not bind the exact committed DA context"⟩
  let committeeId ← committee.committeeId crypto
  require (body.committeeId = committeeId ∧ body.authorId ≠ [] ∧ body.authorSequence ≠ 0 ∧
      body.attestationSequence ≠ 0 ∧ body.epoch < body.retentionEndEpoch)
    ⟨.invalidContext, "attestation does not bind the exact committed DA context"⟩

def id (crypto : Crypto) (body : DaAttestationBody) : DaResult Hash :=
  digestValue crypto "trnm.portable.v2.da-attestation.v1" code body

end DaAttestationBody

structure DaAttestation where
  body : DaAttestationBody
  attestationId : Hash
  signatureScheme : U16
  signature : Bytes
  deriving DecidableEq

namespace DaAttestation

def code : Borsh DaAttestation :=
  (DaAttestationBody.code.pair <| hash32.pair <| u16.pair bytes).record
    (fun ⟨a, b, c, d⟩ => (a, b, c, d)) ↿DaAttestation.mk fun _ => rfl

def signingRoot (crypto : Crypto) (body : DaAttestationBody) : DaResult Hash := do
  let id ← body.id crypto
  digestValue crypto "trnm.portable.v2.da-attestation-signature.v1" hash32 id

/-- The signature of the member the body names. -/
def verifySigner (crypto : Crypto) (committee : DaCommitteeDescriptor) (body : DaAttestationBody)
    (signature : Bytes) : DaResult Unit := do
  let member ← getOr (committee.member body.attestorId)
    ⟨.invalidCommittee, "attestor is not a committee member"⟩
  let root ← signingRoot crypto body
  verifyStrict crypto member.publicKey root.bytes signature

def fromSignature (crypto : Crypto) (committee : DaCommitteeDescriptor) (body : DaAttestationBody)
    (signature : Bytes) : DaResult DaAttestation := do
  body.validate crypto committee
  verifySigner crypto committee body signature
  let id ← body.id crypto
  return ⟨body, id, 0, signature⟩

def verify (crypto : Crypto) (attestation : DaAttestation) (committee : DaCommitteeDescriptor) :
    DaResult Unit := do
  attestation.body.validate crypto committee
  require (attestation.signatureScheme = 0)
    ⟨.identifierMismatch, "attestation ID or scheme mismatch"⟩
  let id ← attestation.body.id crypto
  require (attestation.attestationId = id)
    ⟨.identifierMismatch, "attestation ID or scheme mismatch"⟩
  verifySigner crypto committee attestation.body attestation.signature

end DaAttestation

/-! ## Certificates -/

structure AvailabilityCertificateBody where
  schemaVersion : U16
  context : ProtocolContext
  namespaceTag : DaNamespace
  epoch : U64
  committeeId : Hash
  envelope : DaBatchEnvelope
  author : DaBatchAuthor
  attestations : List DaAttestation
  deriving DecidableEq

def AvailabilityCertificateBody.code : Borsh AvailabilityCertificateBody :=
  (u16.pair <| ProtocolContext.code.pair <| u8.pair <| u64.pair <| hash32.pair <|
    DaBatchEnvelope.code.pair <| DaBatchAuthor.code.pair DaAttestation.code.vec).record
    (fun ⟨a, b, c, d, e, f, g, h⟩ => (a, b, c, d, e, f, g, h)) ↿AvailabilityCertificateBody.mk
      fun _ => rfl

structure AvailabilityCertificate where
  body : AvailabilityCertificateBody
  certificateId : Hash
  deriving DecidableEq

/-- What the loop of `build` has seen. -/
structure SignerTotal where
  prior : Option Hash
  weight : U128

namespace AvailabilityCertificate

def addSigner (crypto : Crypto) (committee : DaCommitteeDescriptor) (envelope : DaBatchEnvelope)
    (batchId : Hash) (s : SignerTotal) (attestation : DaAttestation) : DaResult SignerTotal := do
  attestation.verify crypto committee
  let body := attestation.body
  require ((∀ value ∈ s.prior, value < body.attestorId) ∧ body.context = envelope.context ∧
      body.namespaceTag = envelope.namespaceTag ∧ body.epoch = envelope.epoch ∧
      body.committeeId = envelope.committeeId ∧ body.batchId = batchId ∧
      body.contentRoot = envelope.contentRoot ∧ body.chunkRoot = envelope.chunkRoot ∧
      body.retentionEndEpoch = envelope.retentionEndEpoch ∧ body.authorId = envelope.authorId ∧
      body.authorSequence = envelope.authorSequence)
    ⟨.conflict, "certificate attestation does not exactly bind envelope"⟩
  let member ← getOr (committee.member body.attestorId)
    ⟨.invalidCommittee, "unknown certificate signer"⟩
  let weight ← checkedAdd s.weight member.weight (overflow "certificate weight overflow")
  return ⟨some body.attestorId, weight⟩

def build (crypto : Crypto) (committee : DaCommitteeDescriptor) (envelope : DaBatchEnvelope)
    (author : DaBatchAuthor) (attestations : List DaAttestation) :
    DaResult AvailabilityCertificate := do
  committee.validate crypto
  envelope.validateShape
  require (envelope.context = committee.context ∧ envelope.epoch = committee.epoch)
    ⟨.invalidContext, "certificate envelope differs from committed DA context"⟩
  let committeeId ← committee.committeeId crypto
  require (envelope.committeeId = committeeId ∧ envelope.namespaceTag = transactionBatchNamespace)
    ⟨.invalidContext, "certificate envelope differs from committed DA context"⟩
  author.verify crypto envelope
  require (attestations ≠ [])
    ⟨.insufficientWeight, "availability certificate signer set is empty"⟩
  let batchId ← envelope.batchId crypto
  let total ← attestations.foldlM (addSigner crypto committee envelope batchId) ⟨none, 0⟩
  require (committee.thresholdWeight ≤ total.weight)
    ⟨.insufficientWeight, "availability certificate is below weighted threshold"⟩
  let body : AvailabilityCertificateBody := ⟨1, envelope.context, envelope.namespaceTag,
    envelope.epoch, envelope.committeeId, envelope, author, attestations⟩
  let id ← digestValue crypto "trnm.portable.v2.availability-certificate.v1"
    AvailabilityCertificateBody.code body
  return ⟨body, id⟩

def envelope (certificate : AvailabilityCertificate) : DaBatchEnvelope := certificate.body.envelope

def author (certificate : AvailabilityCertificate) : DaBatchAuthor := certificate.body.author

def attestations (certificate : AvailabilityCertificate) : List DaAttestation :=
  certificate.body.attestations

def verify (crypto : Crypto) (certificate : AvailabilityCertificate)
    (committee : DaCommitteeDescriptor) : DaResult Unit := do
  let rebuilt ← build crypto committee certificate.envelope certificate.author
    certificate.attestations
  require (rebuilt = certificate)
    ⟨.identifierMismatch, "availability certificate does not round-trip exactly"⟩

end AvailabilityCertificate

/-! ## Evidence of equivocation -/

structure AttestorEquivocationEvidence where
  schemaVersion : U16
  left : DaAttestation
  right : DaAttestation
  evidenceId : Hash
  deriving DecidableEq

namespace AttestorEquivocationEvidence

def ofAttestations (crypto : Crypto) (committee : DaCommitteeDescriptor)
    (left right : DaAttestation) : DaResult AttestorEquivocationEvidence := do
  left.verify crypto committee
  right.verify crypto committee
  let leftCoordinate ← left.body.conflictCoordinate crypto
  let rightCoordinate ← right.body.conflictCoordinate crypto
  require (leftCoordinate = rightCoordinate ∧ left.body.batchId ≠ right.body.batchId ∧
      left.attestationId ≠ right.attestationId)
    ⟨.invalidWithholdingEvidence, "attestations are not a signed conflict on one coordinate"⟩
  let (left, right) :=
    if left.attestationId ≤ right.attestationId then (left, right) else (right, left)
  let id ← digestValue crypto "trnm.portable.v2.da-withholding-evidence.candidate.v1"
    (u16.pair <| DaAttestation.code.pair DaAttestation.code) (1, left, right)
  return ⟨1, left, right, id⟩

def verify (crypto : Crypto) (evidence : AttestorEquivocationEvidence)
    (committee : DaCommitteeDescriptor) : DaResult Unit := do
  let rebuilt ← ofAttestations crypto committee evidence.left evidence.right
  require (rebuilt = evidence)
    ⟨.invalidWithholdingEvidence, "equivocation evidence ID or ordering does not recompute"⟩

end AttestorEquivocationEvidence

end Trillionnium.DataAvailability
