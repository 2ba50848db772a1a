import Trillionnium.TaskKernel.Codec

/-!
# Archive batches

The policy, the records of terminal tasks and the sealed batches of `archive.rs`, with their Borsh
encoding, and the checks of `TaskArchiveBatchV1::validate`. Task identifiers are 32 bytes.
-/

namespace Trillionnium.TaskArchive

open Lib Pon
open Mvcc (Borsh u16 u32 u64 u128 hash32)
open TaskKernel (Outcome overflow digestValue ProtocolContext)

abbrev TaskId := Hash

def schemaVersionV1 : U16 := 1

def maxTaskArchiveBatchRecords : U32 := 4096

/-- A set of task identifiers, `BTreeSet<TaskIdV1>`. -/
abbrev TaskIdSet := OrdMap TaskId Unit

/-! ## Records -/

structure TaskArchivePolicy where
  schemaVersion : U16
  context : ProtocolContext
  minimumTerminalRetentionBlocks : U64
  maximumLiveTerminalRecords : U32
  maximumLiveTerminalBytes : U64
  maximumArchiveBatchRecords : U32
  maximumArchiveBatchBytes : U64
  retentionChargeUnitsPerByteBlock : U64

namespace TaskArchivePolicy

def code : Borsh TaskArchivePolicy :=
  (u16.pair <| ProtocolContext.code.pair <| u64.pair <| u32.pair <| u64.pair <| u32.pair <| u64.pair
    u64).record
    (fun ⟨a, b, c, d, e, f, g, h⟩ => (a, b, c, d, e, f, g, h)) ↿TaskArchivePolicy.mk fun _ => rfl

def validate (policy : TaskArchivePolicy) : Outcome Unit := do
  require (policy.schemaVersion = schemaVersionV1)
    (.coded .schemaMismatch "unsupported TaskV1 archive policy schema")
  require (policy.minimumTerminalRetentionBlocks ≠ 0 ∧ policy.maximumLiveTerminalRecords ≠ 0 ∧
      policy.maximumLiveTerminalBytes ≠ 0 ∧ policy.maximumArchiveBatchRecords ≠ 0 ∧
      policy.maximumArchiveBatchBytes ≠ 0 ∧ policy.retentionChargeUnitsPerByteBlock ≠ 0)
    (.coded .invalidBounds "TaskV1 archive policy bounds and charge rate must be positive")
  require (policy.maximumArchiveBatchRecords ≤ maxTaskArchiveBatchRecords)
    (.coded .invalidBounds "TaskV1 archive batch record limit exceeds the hard protocol bound")

def policyHash (sha256 : Bytes → Hash) (policy : TaskArchivePolicy) : Outcome Hash := do
  policy.validate
  digestValue sha256 "trnm.portable.v2.task-archive-policy.candidate.v1" (code.encode policy)

end TaskArchivePolicy

structure TerminalTaskArchiveRecord where
  schemaVersion : U16
  context : ProtocolContext
  taskId : TaskId
  terminalHeight : U64
  taskRevision : U64
  terminalStateDigest : Hash
  terminalReceiptDigest : Hash
  evidenceRoot : Hash
  encodedBytes : U64
  retentionPaidThroughHeight : U64
  retentionChargePaid : U128
  deriving DecidableEq

namespace TerminalTaskArchiveRecord

def code : Borsh TerminalTaskArchiveRecord :=
  (u16.pair <| ProtocolContext.code.pair <| hash32.pair <| u64.pair <| u64.pair <| hash32.pair <|
    hash32.pair <| hash32.pair <| u64.pair <| u64.pair u128).record
    (fun ⟨a, b, c, d, e, f, g, h, i, j, k⟩ => (a, b, c, d, e, f, g, h, i, j, k))
    ↿TerminalTaskArchiveRecord.mk fun _ => rfl

variable (record : TerminalTaskArchiveRecord)

/-- The key of the canonical order, `(terminal_height, task_id)`. -/
def key : U64 ×ₗ TaskId :=
  toLex (record.terminalHeight, record.taskId)

def recordHash (sha256 : Bytes → Hash) (record : TerminalTaskArchiveRecord) : Outcome Hash := do
  require (record.schemaVersion = schemaVersionV1)
    (.coded .schemaMismatch "unsupported terminal TaskV1 archive record schema")
  digestValue sha256 "trnm.portable.v2.task-archive-record.candidate.v1" (code.encode record)

def validateAgainst (policy : TaskArchivePolicy)
    (currentHeight : U64) : Outcome Unit := do
  require (record.schemaVersion = schemaVersionV1)
    (.coded .schemaMismatch "unsupported terminal TaskV1 archive record schema")
  require (record.context = policy.context)
    (.coded .invalidContext "terminal TaskV1 archive record context differs from policy")
  require (record.terminalHeight ≤ currentHeight ∧ record.encodedBytes ≠ 0)
    (.coded .invalidBounds "terminal TaskV1 archive record height/size is invalid")
  let window ← checkedSub policy.minimumTerminalRetentionBlocks 1
    (.panicked "attempt to subtract with overflow")
  let minimumPaidThrough ← checkedAdd record.terminalHeight window
    (overflow "TaskV1 mandatory retention height overflow")
  require (minimumPaidThrough ≤ record.retentionPaidThroughHeight)
    (.coded .invalidBounds "terminal TaskV1 record did not prepay the mandatory retention window")
  let elapsed ← checkedSub record.retentionPaidThroughHeight record.terminalHeight
    (overflow "TaskV1 retention block count overflow")
  let chargedBlocks ← checkedAdd elapsed 1 (overflow "TaskV1 retention block count overflow")
  let byteBlocks ← checkedMul (record.encodedBytes.setWidth 128) (chargedBlocks.setWidth 128)
    (overflow "TaskV1 retention charge overflow")
  let requiredCharge ← checkedMul byteBlocks
    (policy.retentionChargeUnitsPerByteBlock.setWidth 128)
    (overflow "TaskV1 retention charge overflow")
  require (requiredCharge ≤ record.retentionChargePaid)
    (.coded .conservationViolation "terminal TaskV1 retention charge is underfunded")

def firstPrunableHeight : Outcome U64 :=
  checkedAdd record.retentionPaidThroughHeight 1 (overflow "TaskV1 first-prunable height overflow")

end TerminalTaskArchiveRecord

structure TaskArchiveSeal where
  schemaVersion : U16
  context : ProtocolContext
  policyHash : Hash
  archiveHeight : U64
  batchSequence : U64
  previousSealHash : Hash
  firstTerminalHeight : U64
  lastTerminalHeight : U64
  firstTaskId : TaskId
  lastTaskId : TaskId
  recordCount : U32
  totalEncodedBytes : U64
  totalRetentionCharge : U128
  recordsRoot : Hash
  deriving DecidableEq

namespace TaskArchiveSeal

def code : Borsh TaskArchiveSeal :=
  (u16.pair <| ProtocolContext.code.pair <| hash32.pair <| u64.pair <| u64.pair <| hash32.pair <|
    u64.pair <|
    u64.pair <| hash32.pair <| hash32.pair <| u32.pair <| u64.pair <| u128.pair hash32).record
    (fun ⟨a, b, c, d, e, f, g, h, i, j, k, l, m, n⟩ => (a, b, c, d, e, f, g, h, i, j, k, l, m, n))
    ↿TaskArchiveSeal.mk fun _ => rfl

def sealHash (sha256 : Bytes → Hash) (s : TaskArchiveSeal) : Outcome Hash := do
  require (s.schemaVersion = schemaVersionV1 ∧ s.recordCount ≠ 0)
    (.coded .schemaMismatch "invalid TaskV1 archive seal schema/count")
  digestValue sha256 "trnm.portable.v2.task-archive-seal.candidate.v1" (code.encode s)

end TaskArchiveSeal

/-! ## The Merkle root of a batch -/

section
variable (sha256 : Bytes → Hash)

def merkleParent (left right : Hash) : Outcome Hash :=
  digestValue sha256 "trnm.portable.v2.task-archive-merkle-node.candidate.v1"
    ((hash32.pair hash32).encode (left, right))

/-- One round of the loop of `merkle_root_v1`. -/
def merkleParents : List Hash → Outcome (List Hash)
  | [] => .ok []
  | [left] => do
    let parent ← merkleParent sha256 left left
    return [parent]
  | left :: right :: rest => do
    let parent ← merkleParent sha256 left right
    let parents ← merkleParents rest
    return parent :: parents

/-- The loop, which needs fewer rounds than there are leaves. -/
def merkleTop : Nat → List Hash → Outcome (List Hash)
  | 0, level => .ok level
  | rounds + 1, level =>
    if 1 < level.length then do
      let next ← merkleParents sha256 level
      merkleTop rounds next
    else .ok level

def merkleRoot (leaves : List Hash) : Outcome Hash := do
  require (leaves ≠ []) (.coded .invalidBounds "TaskV1 archive Merkle tree cannot be empty")
  let level ← merkleTop sha256 leaves.length leaves
  getOr level.head? (.panicked "index out of bounds")

end

/-! ## Batches -/

structure TaskArchiveBatch where
  seal_ : TaskArchiveSeal
  records : List TerminalTaskArchiveRecord
  deriving DecidableEq

/-- What the loop of `validate` has seen of the records. -/
structure Tally where
  previousKey : Option (U64 ×ₗ TaskId)
  taskIds : TaskIdSet
  totalBytes : U64
  totalCharge : U128
  hashes : List Hash

namespace TaskArchiveBatch

section
variable (sha256 : Bytes → Hash) (policy : TaskArchivePolicy)

/-- One round of the loop of `validate`. -/
def countRecord (archiveHeight : U64) (tally : Tally) (record : TerminalTaskArchiveRecord) :
    Outcome Tally := do
  record.validateAgainst policy archiveHeight
  let prunable ← record.firstPrunableHeight
  require (prunable ≤ archiveHeight)
    (.coded .invalidState "TaskV1 archive artifact violates prepaid retention")
  require (tally.taskIds.get record.taskId = none)
    (.coded .nonCanonical "duplicate TaskV1 terminal record in archive batch")
  require (∀ previous ∈ tally.previousKey, previous < record.key)
    (.coded .nonCanonical "TaskV1 archive records are not strictly ordered and unique")
  let totalBytes ← checkedAdd tally.totalBytes record.encodedBytes
    (overflow "TaskV1 archive byte total overflow")
  let totalCharge ← checkedAdd tally.totalCharge record.retentionChargePaid
    (overflow "TaskV1 archive charge total overflow")
  let hash ← record.recordHash sha256
  return ⟨some record.key, tally.taskIds.insert record.taskId (), totalBytes, totalCharge,
    tally.hashes ++ [hash]⟩

def validate (batch : TaskArchiveBatch) : Outcome Unit := do
  policy.validate
  require (batch.records ≠ [] ∧
      batch.records.length ≤ policy.maximumArchiveBatchRecords.toNat)
    (.coded .invalidBounds "TaskV1 archive batch record count is outside policy")
  require (batch.seal_.schemaVersion = schemaVersionV1 ∧ batch.seal_.context = policy.context)
    (.coded .invalidState "TaskV1 archive seal does not bind policy/context/count")
  let policyHash ← policy.policyHash sha256
  require (batch.seal_.policyHash = policyHash ∧ batch.seal_.batchSequence ≠ 0)
    (.coded .invalidState "TaskV1 archive seal does not bind policy/context/count")
  require (batch.records.length < 2 ^ 32)
    (overflow "TaskV1 archive record count conversion overflow")
  require (batch.seal_.recordCount.toNat = batch.records.length)
    (.coded .invalidState "TaskV1 archive seal does not bind policy/context/count")
  let tally ← batch.records.foldlM (countRecord sha256 policy batch.seal_.archiveHeight)
    ⟨none, ∅, 0, 0, []⟩
  require (tally.totalBytes ≤ policy.maximumArchiveBatchBytes ∧
      tally.totalBytes = batch.seal_.totalEncodedBytes ∧
      tally.totalCharge = batch.seal_.totalRetentionCharge)
    (.coded .invalidState "TaskV1 archive batch totals/root differ from its seal")
  let root ← merkleRoot sha256 tally.hashes
  require (root = batch.seal_.recordsRoot)
    (.coded .invalidState "TaskV1 archive batch totals/root differ from its seal")
  let first ← getOr batch.records.head?
    (.coded .invalidState "TaskV1 archive batch unexpectedly empty")
  let last ← getOr batch.records.getLast?
    (.coded .invalidState "TaskV1 archive batch unexpectedly empty")
  require (batch.seal_.firstTerminalHeight = first.terminalHeight ∧
      batch.seal_.lastTerminalHeight = last.terminalHeight ∧
      batch.seal_.firstTaskId = first.taskId ∧ batch.seal_.lastTaskId = last.taskId)
    (.coded .invalidState "TaskV1 archive seal range differs from canonical records")

end

end TaskArchiveBatch

end Trillionnium.TaskArchive
