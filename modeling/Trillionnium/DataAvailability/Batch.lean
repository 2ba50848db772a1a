import Trillionnium.DataAvailability.Types

/-!
# Policies and transaction batches

The policy with the authors it admits, and the batch that is built from transactions with its chunks
and Merkle roots, as in `types.rs`.
-/

namespace Trillionnium.DataAvailability

open Lib Pon
open Mvcc (Borsh u16 u32 u64 hash32 bytes)

/-- `u32::try_from` and `u64::try_from` of a length. -/
def tryFrom (w n : Nat) (failure : DaError) : DaResult (BitVec w) :=
  if n < 2 ^ w then .ok (BitVec.ofNat w n) else .error failure

@[simp] theorem tryFrom_eq_ok {w n : Nat} {e : DaError} {x : BitVec w} :
    tryFrom w n e = .ok x ↔ x.toNat = n := by
  unfold tryFrom
  split
  · rename_i h
    rw [Except.ok.injEq, ← BitVec.toNat_inj, BitVec.toNat_ofNat, Nat.mod_eq_of_lt h]
    exact eq_comm
  · rename_i h
    refine ⟨nofun, fun hx => absurd ?_ h⟩
    exact hx ▸ x.isLt

/-! ## Policy -/

structure DaAuthorAuthority where
  authorId : Bytes
  authorPublicKey : Hash
  firstSequence : U64
  maximumSequence : U64
  maxAuthorBytes : U64
  maxOutstandingSequences : U32

namespace DaAuthorAuthority

def validate (crypto : Crypto) (authority : DaAuthorAuthority) : DaResult Unit := do
  require (authority.authorId ≠ [] ∧ authority.authorId.length ≤ 256 ∧
      authority.firstSequence ≠ 0 ∧ authority.firstSequence ≤ authority.maximumSequence ∧
      authority.maxAuthorBytes ≠ 0 ∧ authority.maxOutstandingSequences ≠ 0)
    ⟨.invalidBounds, "invalid DA author authority"⟩
  require (crypto.isKey authority.authorPublicKey)
    ⟨.invalidSignature, "author key is not strict Ed25519"⟩
  require (¬ crypto.isWeak authority.authorPublicKey)
    ⟨.invalidSignature, "weak author key is forbidden"⟩

end DaAuthorAuthority

structure DaPolicy where
  schemaVersion : U16
  context : ProtocolContext
  epoch : U64
  committeeId : Hash
  authorities : List DaAuthorAuthority
  maxBatchBytes : U64
  maxBatchItems : U32
  maxChunkBytes : U32
  maxChunksPerBatch : U32
  maxQueueBatches : U32
  maxQueueBytes : U64
  retrievalWindowBlocks : U64
  repairWindowBlocks : U64

/-- What the loop of `DaPolicyV1::validate` has seen. -/
structure AuthoritiesSeen where
  prior : Option Bytes
  keys : List Hash

def AuthoritiesSeen.add (crypto : Crypto) (committee : DaCommitteeDescriptor) (s : AuthoritiesSeen)
    (authority : DaAuthorAuthority) : DaResult AuthoritiesSeen := do
  authority.validate crypto
  require ((∀ value ∈ s.prior, value < authority.authorId) ∧ authority.authorPublicKey ∉ s.keys ∧
      authority.maxAuthorBytes ≤ committee.maxAuthorBytes ∧
      authority.maxOutstandingSequences ≤ committee.maxOutstandingSequences)
    ⟨.invalidBounds, "authorities must be canonical and within committee limits"⟩
  return ⟨some authority.authorId, authority.authorPublicKey :: s.keys⟩

namespace DaPolicy

def validate (crypto : Crypto) (policy : DaPolicy) (committee : DaCommitteeDescriptor) :
    DaResult Unit := do
  require (policy.schemaVersion = 1 ∧ policy.context = committee.context ∧
      policy.epoch = committee.epoch)
    ⟨.invalidBounds, "invalid transaction-batch DA policy"⟩
  let committeeId ← committee.committeeId crypto
  require (policy.committeeId = committeeId ∧ policy.maxBatchBytes = committee.maxBatchBytes ∧
      policy.maxBatchItems = committee.maxBatchItems ∧ policy.maxChunkBytes ≠ 0 ∧
      policy.maxChunksPerBatch ≠ 0 ∧ policy.maxQueueBatches ≠ 0 ∧ policy.maxQueueBytes ≠ 0 ∧
      policy.retrievalWindowBlocks ≠ 0 ∧ policy.repairWindowBlocks ≠ 0)
    ⟨.invalidBounds, "invalid transaction-batch DA policy"⟩
  require (policy.maxChunkBytes.toNat ≤ policy.maxBatchBytes.toNat)
    ⟨.invalidBounds, "chunk bound exceeds batch bound"⟩
  let _ ← policy.authorities.foldlM (AuthoritiesSeen.add crypto committee) ⟨none, []⟩
  require (policy.authorities ≠ []) ⟨.invalidBounds, "DA policy requires an author authority"⟩

/-- The binary search by author, on authorities that are strictly ordered by it. -/
def authority (policy : DaPolicy) (authorId : Bytes) : Option DaAuthorAuthority :=
  policy.authorities.find? fun a => a.authorId = authorId

end DaPolicy

/-! ## Chunks -/

structure DaChunkCoordinate where
  schemaVersion : U16
  context : ProtocolContext
  namespaceTag : DaNamespace
  epoch : U64
  committeeId : Hash
  authorId : Bytes
  authorSequence : U64
  chunkingProfileId : Hash
  chunkIndex : U32
  exactByteLength : U64
  deriving DecidableEq

def DaChunkCoordinate.code : Borsh DaChunkCoordinate :=
  (u16.pair <| ProtocolContext.code.pair <| u8.pair <| u64.pair <| hash32.pair <| bytes.pair <|
    u64.pair <| hash32.pair <| u32.pair u64).record
    (fun ⟨a, b, c, d, e, f, g, h, i, j⟩ => (a, b, c, d, e, f, g, h, i, j))
    ↿DaChunkCoordinate.mk fun _ => rfl

structure DaChunk where
  coordinate : DaChunkCoordinate
  chunkId : Hash
  bytes : Bytes
  bytesDigest : Hash
  deriving DecidableEq

namespace DaChunk

def code : Borsh DaChunk :=
  (DaChunkCoordinate.code.pair <| hash32.pair <| Mvcc.bytes.pair hash32).record
    (fun ⟨a, b, c, d⟩ => (a, b, c, d)) ↿DaChunk.mk fun _ => rfl

def ofBytes (crypto : Crypto) (coordinate : DaChunkCoordinate) (bs : Bytes) : DaResult DaChunk := do
  require (bs ≠ [] ∧ coordinate.exactByteLength = BitVec.ofNat 64 bs.length)
    ⟨.invalidBounds, "chunk bytes/coordinate length mismatch"⟩
  let chunkId ← digestValue crypto "trnm.portable.v2.da-chunk-id.v1" DaChunkCoordinate.code
    coordinate
  let bytesDigest ← digestValue crypto "trnm.portable.v2.da-chunk-bytes.v1" Mvcc.bytes bs
  return ⟨coordinate, chunkId, bs, bytesDigest⟩

def validate (crypto : Crypto) (chunk : DaChunk) : DaResult Unit := do
  let expected ← ofBytes crypto chunk.coordinate chunk.bytes
  require (expected.chunkId = chunk.chunkId ∧ expected.bytesDigest = chunk.bytesDigest)
    ⟨.tamperDetected, "chunk identifier or digest mismatch"⟩

end DaChunk

/-! ## Merkle roots -/

/-- One round of the loop of `merkle_root`: an odd last node is paired with itself. -/
def merkleParents (crypto : Crypto) (domain : String) (level : U32) :
    List Hash → DaResult (List Hash)
  | [] => .ok []
  | [left] => do
    let parent ← digestValue crypto "trnm.portable.v2.da-merkle-parent.candidate.v1"
      (bytes.pair <| u32.pair <| hash32.pair hash32) (Bytes.ofString domain, level, left, left)
    return [parent]
  | left :: right :: rest => do
    let parent ← digestValue crypto "trnm.portable.v2.da-merkle-parent.candidate.v1"
      (bytes.pair <| u32.pair <| hash32.pair hash32) (Bytes.ofString domain, level, left, right)
    let parents ← merkleParents crypto domain level rest
    return parent :: parents

/-- The loop of `merkle_root`. A round leaves fewer nodes while there is more than one, so that as
many rounds as there are leaves always suffice. -/
def merkleTop (crypto : Crypto) (domain : String) : Nat → U32 → List Hash → DaResult (List Hash)
  | 0, _, leaves => .ok leaves
  | rounds + 1, level, leaves =>
    if 1 < leaves.length then do
      let parents ← merkleParents crypto domain level leaves
      let level ← checkedAdd level 1 (overflow "Merkle level overflow")
      merkleTop crypto domain rounds level parents
    else .ok leaves

def merkleRoot (crypto : Crypto) (domain : String) (leaves : List Hash) : DaResult Hash := do
  require (leaves ≠ []) ⟨.invalidBounds, "candidate DA root cannot be empty"⟩
  let count ← tryFrom 32 leaves.length (overflow "Merkle leaf count exceeds u32")
  let top ← merkleTop crypto domain leaves.length 0 leaves
  digestValue crypto "trnm.portable.v2.da-merkle-root.candidate.v1"
    (bytes.pair <| u32.pair hash32) (Bytes.ofString domain, count, top.headD .zero)

/-! ## Batches -/

structure UnsignedTransactionBatch where
  envelope : DaBatchEnvelope
  batchId : Hash
  contentBytes : Bytes
  chunks : List DaChunk
  deriving DecidableEq

namespace UnsignedTransactionBatch

/-- The leaf of one transaction; the item is hashed twice, as in the source. -/
def contentLeaf (crypto : Crypto) (transaction : Bytes) (index : Nat) : DaResult Hash := do
  let itemId ← digestValue crypto "trnm.portable.v2.da-transaction-item.candidate.v1" bytes
    transaction
  let index ← tryFrom 32 index (overflow "transaction index exceeds u32")
  let digest ← digestValue crypto "trnm.portable.v2.da-transaction-item.candidate.v1" bytes
    transaction
  digestValue crypto "trnm.portable.v2.da-content-leaf.candidate.v1"
    (u32.pair <| hash32.pair hash32) (index, itemId, digest)

def chunkLeaf (crypto : Crypto) (chunk : DaChunk) : DaResult Hash :=
  digestValue crypto "trnm.portable.v2.da-chunk-leaf.candidate.v1" (u32.pair <| hash32.pair hash32)
    (chunk.coordinate.chunkIndex, chunk.chunkId, chunk.bytesDigest)

def build (crypto : Crypto) (committee : DaCommitteeDescriptor) (policy : DaPolicy)
    (authorId : Bytes) (authorSequence : U64) (transactions : List Bytes) :
    DaResult UnsignedTransactionBatch := do
  committee.validate crypto
  policy.validate crypto committee
  let authority ← getOr (policy.authority authorId)
    ⟨.unauthorizedAuthor, "author is not in the committed DA policy"⟩
  require (authority.firstSequence ≤ authorSequence ∧ authorSequence ≤ authority.maximumSequence)
    ⟨.sequenceConflict, "author sequence is outside authority range"⟩
  require (transactions ≠ [] ∧ transactions.length ≤ policy.maxBatchItems.toNat)
    ⟨.invalidBounds, "invalid transaction item count"⟩
  require ((∀ transaction ∈ transactions, transaction ≠ []) ∧ transactions.Nodup)
    ⟨.nonCanonical, "transaction entries must be nonempty and duplicate-free"⟩
  let contentBytes ← canonicalBytes bytes.vec transactions
  let totalBytes ← tryFrom 64 contentBytes.length (overflow "transaction batch length exceeds u64")
  require (totalBytes ≤ policy.maxBatchBytes)
    ⟨.invalidBounds, "transaction batch exceeds max_batch_bytes"⟩
  let contentCodecId ← digestValue crypto "trnm.portable.v2.da-codec.v1" (u16.pair u8) (1, 0)
  let chunkingProfileId ← digestValue crypto "trnm.portable.v2.da-chunking-profile.v1"
    (u16.pair <| u8.pair u32) (1, 0, policy.maxChunkBytes)
  let contentLeaves ← transactions.zipIdx.mapM fun (transaction, index) =>
    contentLeaf crypto transaction index
  let contentRoot ← merkleRoot crypto "trnm.portable.v2.da-content-leaf.candidate.v1" contentLeaves
  let chunkSize := policy.maxChunkBytes.toNat
  let chunkCount := (contentBytes.length + chunkSize - 1) / chunkSize
  require (chunkCount ≠ 0 ∧ chunkCount ≤ policy.maxChunksPerBatch.toNat)
    ⟨.invalidBounds, "transaction batch chunk count exceeds policy"⟩
  let committeeId ← committee.committeeId crypto
  let chunks ← (contentBytes.toChunks chunkSize).zipIdx.mapM fun (bs, index) => do
    let chunkIndex ← tryFrom 32 index (overflow "chunk index exceeds u32")
    DaChunk.ofBytes crypto ⟨1, committee.context, transactionBatchNamespace, committee.epoch,
      committeeId, authorId, authorSequence, chunkingProfileId, chunkIndex,
      BitVec.ofNat 64 bs.length⟩ bs
  let chunkLeaves ← chunks.mapM (chunkLeaf crypto)
  let chunkRoot ← merkleRoot crypto "trnm.portable.v2.da-chunk-leaf.candidate.v1" chunkLeaves
  let retentionEndEpoch ← checkedAdd committee.epoch (committee.retentionEpochs.setWidth 64)
    (overflow "retention end overflow")
  let itemCount ← tryFrom 32 transactions.length (overflow "transaction count exceeds u32")
  let chunkCount ← tryFrom 32 chunks.length (overflow "chunk count exceeds u32")
  let envelope : DaBatchEnvelope := ⟨1, committee.context, transactionBatchNamespace,
    committee.epoch, committeeId, authorId, authorSequence, 0, contentCodecId, itemCount,
    totalBytes, contentRoot, chunkingProfileId, chunkCount, chunkRoot, retentionEndEpoch⟩
  let batchId ← envelope.batchId crypto
  return ⟨envelope, batchId, contentBytes, chunks⟩

/-- The batch is the one its own content builds. -/
def verifyExact (crypto : Crypto) (batch : UnsignedTransactionBatch)
    (committee : DaCommitteeDescriptor) (policy : DaPolicy) : DaResult Unit := do
  forM batch.chunks (DaChunk.validate crypto)
  let transactions ← strictDecode bytes.vec batch.contentBytes
  let rebuilt ← build crypto committee policy batch.envelope.authorId batch.envelope.authorSequence
    transactions
  require (rebuilt = batch)
    ⟨.tamperDetected, "batch content/chunks do not exactly derive the envelope"⟩

def fromStored (crypto : Crypto) (committee : DaCommitteeDescriptor) (policy : DaPolicy)
    (envelopeBytes contentBytes chunksBytes : Bytes) : DaResult UnsignedTransactionBatch := do
  let envelope ← strictDecode DaBatchEnvelope.code envelopeBytes
  let chunks ← strictDecode DaChunk.code.vec chunksBytes
  let batchId ← envelope.batchId crypto
  let value : UnsignedTransactionBatch := ⟨envelope, batchId, contentBytes, chunks⟩
  value.verifyExact crypto committee policy
  return value

end UnsignedTransactionBatch

end Trillionnium.DataAvailability
