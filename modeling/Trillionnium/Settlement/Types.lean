import Trillionnium.Mvcc.Types

/-!
# Records of the service settlement

The records of `types.rs` with the integer widths of the source and their Borsh encoding.
Identifiers, keys and hashes are 32 bytes.
-/

namespace Trillionnium.Settlement

open Lib Pon
open Mvcc (Borsh ProtocolContext u16 u32 u64 u128 hash32 bytes)

def u8 : Borsh U8 := .uint 8 1 Code.byte_fits

/-! ## Errors -/

inductive ErrorCode where
  | invalidContext
  | invalidBounds
  | nonCanonical
  | identifierMismatch
  | invalidSignature
  | unauthorized
  | staleVersion
  | invalidTransition
  | sequenceGap
  | rootMismatch
  | arithmeticOverflow
  | conservationViolation
  | insufficientFunds
  | notMature
  | alreadyConsumed
  | conflict
  | notFound
  | storeFailure
  | schemaMismatch
  | tamperDetected
  | sidecarPresent
  | commitUncertain
  | thirdStateFenced
  deriving DecidableEq

structure Failure where
  code : ErrorCode
  message : String
  deriving DecidableEq

abbrev Outcome (α : Type) := Except Failure α

def okOr {α : Type} (value : Option α) (code : ErrorCode) (message : String) : Outcome α :=
  getOr value ⟨code, message⟩

/-! ## Trust bundle -/

structure RegisteredBilateralKey where
  agentId : Hash
  keyId : Hash
  publicKey : Hash
  policyRevision : U64
  keyGeneration : U64

structure ConsumptionPrice where
  resourceClass : U16
  resourceId : Bytes
  meterId : Bytes
  meterVersion : U32
  unit : U16
  unitPrice : U128

structure SettlementPolicy where
  schemaVersion : U16
  policyRevision : U32
  minimumRollupChallengeBlocks : U64
  maximumRollups : U32
  protocolFeeNumerator : U128
  protocolFeeDenominator : U128
  feeScheduleHash : Hash

def SettlementPolicy.code : Borsh SettlementPolicy :=
  (u16.pair <| u32.pair <| u64.pair <| u32.pair <| u128.pair <| u128.pair hash32).record
    (fun ⟨a, b, c, d, e, f, g⟩ => (a, b, c, d, e, f, g)) ↿SettlementPolicy.mk fun _ => rfl

structure TrustBundle where
  schemaVersion : U16
  context : ProtocolContext
  initialOrderHeight : U64
  initialOrderBlockId : Hash
  provider : RegisteredBilateralKey
  consumer : RegisteredBilateralKey
  taskId : Hash
  leaseId : Hash
  attempt : U32
  resultId : Hash
  resultRevision : U64
  resultStatus : U8
  escrowId : Hash
  escrowVersion : U64
  assetId : Hash
  escrowFunding : U128
  providerAccountId : Hash
  consumerAccountId : Hash
  protocolAccountId : Hash
  providerOpeningBalance : U128
  consumerOpeningBalance : U128
  protocolOpeningBalance : U128
  prices : List ConsumptionPrice
  acceptedEvidenceCertificates : List Hash
  relatedPartyPolicyHash : Hash
  settlementPolicy : SettlementPolicy

/-! ## Receipts -/

structure ResourceUsage where
  resourceClass : U16
  resourceId : Bytes
  meterId : Bytes
  meterVersion : U32
  amount : U128
  unit : U16
  measurementCommitment : Hash
  deriving DecidableEq

def ResourceUsage.code : Borsh ResourceUsage :=
  (u16.pair <| bytes.pair <| bytes.pair <| u32.pair <| u128.pair <| u16.pair hash32).record
    (fun ⟨a, b, c, d, e, f, g⟩ => (a, b, c, d, e, f, g)) ↿ResourceUsage.mk fun _ => rfl

structure CumulativeResourceUsage where
  resourceClass : U16
  resourceId : Bytes
  meterId : Bytes
  meterVersion : U32
  totalAmount : U128
  unit : U16
  accumulatorCommitment : Hash
  deriving DecidableEq

def CumulativeResourceUsage.code : Borsh CumulativeResourceUsage :=
  (u16.pair <| bytes.pair <| bytes.pair <| u32.pair <| u128.pair <| u16.pair hash32).record
    (fun ⟨a, b, c, d, e, f, g⟩ => (a, b, c, d, e, f, g)) ↿CumulativeResourceUsage.mk fun _ => rfl

structure ConsumptionReceiptBody where
  schemaVersion : U16
  context : ProtocolContext
  providerId : Hash
  consumerId : Hash
  taskId : Hash
  leaseId : Hash
  attempt : U32
  resultId : Hash
  meterId : Bytes
  meterVersion : U32
  sequence : U64
  periodStartHeight : U64
  periodEndHeight : U64
  usage : List ResourceUsage
  priorReceiptId : Option Hash
  cumulativeUsage : List CumulativeResourceUsage
  cumulativeUsageRoot : Hash
  cumulativeCharge : U128
  evidenceCertificateId : Hash
  relatedPartyPolicyHash : Hash
  deriving DecidableEq

def ConsumptionReceiptBody.code : Borsh ConsumptionReceiptBody :=
  (u16.pair <| ProtocolContext.code.pair <| hash32.pair <| hash32.pair <| hash32.pair <|
    hash32.pair <| u32.pair <| hash32.pair <| bytes.pair <| u32.pair <| u64.pair <| u64.pair <|
    u64.pair <| ResourceUsage.code.vec.pair <| hash32.option.pair <|
    CumulativeResourceUsage.code.vec.pair <| hash32.pair <| u128.pair <| hash32.pair hash32).record
    (fun ⟨a, b, c, d, e, f, g, h, i, j, k, l, m, n, o, p, q, r, s, t⟩ => (a, b, c, d, e, f, g, h, i,
      j, k, l, m, n, o, p, q, r, s, t))
    ↿ConsumptionReceiptBody.mk fun _ => rfl

structure BilateralSignatureEntry where
  agentId : Hash
  keyId : Hash
  keyRole : U8
  policyRevision : U64
  keyGeneration : U64
  authorityHeight : U64
  signatureScheme : U16
  signature : Bytes
  deriving DecidableEq

structure BilateralSignatureStatement where
  schemaVersion : U16
  bodyId : Hash
  agentId : Hash
  keyId : Hash
  keyRole : U8
  policyRevision : U64
  keyGeneration : U64
  authorityHeight : U64

def BilateralSignatureStatement.code : Borsh BilateralSignatureStatement :=
  (u16.pair <| hash32.pair <| hash32.pair <| hash32.pair <| u8.pair <| u64.pair <|
    u64.pair u64).record
    (fun ⟨a, b, c, d, e, f, g, h⟩ => (a, b, c, d, e, f, g, h)) ↿BilateralSignatureStatement.mk
      fun _ => rfl

structure ConsumptionReceipt where
  body : ConsumptionReceiptBody
  providerSignature : BilateralSignatureEntry
  consumerSignature : BilateralSignatureEntry
  deriving DecidableEq

structure ConsumptionReceiptState where
  receipt : ConsumptionReceipt
  receiptId : Hash
  version : U64
  status : U8
  assignedRollupId : Option Hash
  acceptedHeight : U64

/-! ## Rollups -/

structure ConsumptionRollupBody where
  schemaVersion : U16
  context : ProtocolContext
  providerId : Hash
  consumerId : Hash
  taskId : Hash
  leaseId : Hash
  attempt : U32
  resultId : Hash
  meterId : Bytes
  meterVersion : U32
  firstSequence : U64
  lastSequence : U64
  receiptIds : List Hash
  receiptCount : U32
  receiptsRoot : Hash
  usageTotals : List ResourceUsage
  totalCharge : U128
  evidenceCertificateId : Hash
  escrowId : Hash
  settlementPolicyHash : Hash
  relatedPartyPolicyHash : Hash

def ConsumptionRollupBody.code : Borsh ConsumptionRollupBody :=
  (u16.pair <| ProtocolContext.code.pair <| hash32.pair <| hash32.pair <| hash32.pair <|
    hash32.pair <| u32.pair <| hash32.pair <| bytes.pair <| u32.pair <| u64.pair <| u64.pair <|
    hash32.vec.pair <| u32.pair <| hash32.pair <| ResourceUsage.code.vec.pair <| u128.pair <|
    hash32.pair <| hash32.pair <| hash32.pair hash32).record
    (fun ⟨a, b, c, d, e, f, g, h, i, j, k, l, m, n, o, p, q, r, s, t, u⟩ => (a, b, c, d, e, f, g, h,
      i, j, k, l, m, n, o, p, q, r, s, t, u))
    ↿ConsumptionRollupBody.mk fun _ => rfl

structure ConsumptionRollup where
  body : ConsumptionRollupBody
  providerSignature : BilateralSignatureEntry
  consumerSignature : BilateralSignatureEntry

structure ConsumptionRollupState where
  rollup : ConsumptionRollup
  rollupId : Hash
  version : U64
  acceptedHeight : U64
  challengeCloseHeight : U64
  status : U8
  consumedBySettlementId : Option Hash

/-! ## Settlements -/

structure SettlementOperationBody where
  schemaVersion : U16
  context : ProtocolContext
  taskId : Hash
  leaseId : Hash
  attempt : U32
  resultId : Hash
  expectedResultRevision : U64
  expectedEscrowVersion : U64
  expectedRollupVersion : U64
  settlementPolicyHash : Hash

structure SettlementInput where
  assetId : Hash
  escrowId : Hash
  escrowVersion : U64
  amount : U128

def SettlementInput.code : Borsh SettlementInput :=
  (hash32.pair <| hash32.pair <| u64.pair u128).record
    (fun ⟨a, b, c, d⟩ => (a, b, c, d)) ↿SettlementInput.mk fun _ => rfl

structure ValueDelta where
  assetId : Hash
  accountId : Hash
  reason : U16
  amount : U128

def ValueDelta.code : Borsh ValueDelta :=
  (hash32.pair <| hash32.pair <| u16.pair u128).record
    (fun ⟨a, b, c, d⟩ => (a, b, c, d)) ↿ValueDelta.mk fun _ => rfl

structure SettlementIntent where
  schemaVersion : U16
  context : ProtocolContext
  taskId : Hash
  leaseId : Hash
  attempt : U32
  resultId : Hash
  resultRevision : U64
  resultStatus : U8
  settlementMaturity : U8
  escrowId : Hash
  consumptionRollupIds : List Hash
  feeScheduleHash : Hash
  settlementPolicyHash : Hash
  inputs : List SettlementInput
  inputValueRoot : Hash
  plannedDeltas : List ValueDelta
  plannedDeltasRoot : Hash
  conservationRoot : Hash

def SettlementIntent.code : Borsh SettlementIntent :=
  (u16.pair <| ProtocolContext.code.pair <| hash32.pair <| hash32.pair <| u32.pair <|
    hash32.pair <| u64.pair <| u8.pair <| u8.pair <| hash32.pair <| hash32.vec.pair <|
    hash32.pair <| hash32.pair <| SettlementInput.code.vec.pair <| hash32.pair <|
    ValueDelta.code.vec.pair <| hash32.pair hash32).record
    (fun ⟨a, b, c, d, e, f, g, h, i, j, k, l, m, n, o, p, q, r⟩ => (a, b, c, d, e, f, g, h, i, j, k,
      l, m, n, o, p, q, r)) ↿SettlementIntent.mk fun _ => rfl

structure PostAccountVersionEntry where
  accountId : Hash
  priorVersion : U64
  postVersion : U64
  postValueHash : Hash

def PostAccountVersionEntry.code : Borsh PostAccountVersionEntry :=
  (hash32.pair <| u64.pair <| u64.pair hash32).record
    (fun ⟨a, b, c, d⟩ => (a, b, c, d)) ↿PostAccountVersionEntry.mk fun _ => rfl

structure SettlementReceipt where
  schemaVersion : U16
  context : ProtocolContext
  settlementId : Hash
  taskId : Hash
  leaseId : Hash
  resultId : Hash
  escrowId : Hash
  appliedDeltas : List ValueDelta
  postAccountVersions : List PostAccountVersionEntry
  postAccountVersionsRoot : Hash
  postEscrowVersion : U64

structure SettlementState where
  settlementId : Hash
  stateVersion : U64
  intent : SettlementIntent
  status : U8
  receipt : SettlementReceipt
  appliedHeight : U64

/-! ## State -/

structure AccountBalanceState where
  accountId : Hash
  version : U64
  balance : U128

structure EscrowBalanceState where
  escrowId : Hash
  version : U64
  balance : U128
  closed : Bool
  lastSettlementId : Option Hash

structure ResultSettlementState where
  resultId : Hash
  revision : U64
  resultStatus : U8
  settlementMaturity : U8
  settlementId : Option Hash

structure KernelState where
  receipts : List ConsumptionReceiptState
  rollup : Option ConsumptionRollupState
  settlement : Option SettlementState
  escrow : EscrowBalanceState
  result : ResultSettlementState
  accounts : List AccountBalanceState

/-! ## Commands -/

inductive Command where
  | admitReceipt (receipt : ConsumptionReceipt)
  | admitRollup (rollup : ConsumptionRollup) (receipts : List ConsumptionReceipt)
  | settle (operation : SettlementOperationBody)

/-! ## Orders -/

/-- The resource a usage entry is about. -/
abbrev ResourceKey := U16 ×ₗ Bytes ×ₗ Bytes ×ₗ U32 ×ₗ U16

def ResourceUsage.key (u : ResourceUsage) : ResourceKey :=
  toLex (u.resourceClass, toLex (u.resourceId, toLex (u.meterId, toLex (u.meterVersion, u.unit))))

def CumulativeResourceUsage.key (u : CumulativeResourceUsage) : ResourceKey :=
  toLex (u.resourceClass, toLex (u.resourceId, toLex (u.meterId, toLex (u.meterVersion, u.unit))))

/-- The order of two records is the order of their fields. -/
abbrev UsageOrder := U16 ×ₗ Bytes ×ₗ Bytes ×ₗ U32 ×ₗ U128 ×ₗ U16 ×ₗ Hash

def usageOrder (resourceClass : U16) (resourceId meterId : Bytes) (meterVersion : U32)
    (amount : U128) (unit : U16) (commitment : Hash) : UsageOrder :=
  toLex (resourceClass, toLex (resourceId, toLex (meterId, toLex (meterVersion,
    toLex (amount, toLex (unit, commitment))))))

def ResourceUsage.orderKey (u : ResourceUsage) : UsageOrder :=
  usageOrder u.resourceClass u.resourceId u.meterId u.meterVersion u.amount u.unit
    u.measurementCommitment

def CumulativeResourceUsage.orderKey (u : CumulativeResourceUsage) : UsageOrder :=
  usageOrder u.resourceClass u.resourceId u.meterId u.meterVersion u.totalAmount u.unit
    u.accumulatorCommitment

def ConsumptionPrice.orderKey (p : ConsumptionPrice) :
    U16 ×ₗ Bytes ×ₗ Bytes ×ₗ U32 ×ₗ U16 ×ₗ U128 :=
  toLex (p.resourceClass, toLex (p.resourceId, toLex (p.meterId, toLex (p.meterVersion,
    toLex (p.unit, p.unitPrice)))))

def ValueDelta.orderKey (d : ValueDelta) : Hash ×ₗ Hash ×ₗ U16 ×ₗ U128 :=
  toLex (d.assetId, toLex (d.accountId, toLex (d.reason, d.amount)))

/-! ## Digests -/

/-- `canonical_bytes`: a vector whose length does not fit `u32` is not written. -/
def canonicalBytes {α : Type} (c : Borsh α) (value : α) : Outcome Bytes :=
  okOr (c.encode value) .nonCanonical "invalid data"

def digestEncoded (sha256 : Bytes → Hash) (domain : String) (encoded : Bytes) : Outcome Hash := do
  let name := Bytes.ofString domain
  require (name ≠ [] ∧ name.all (· < 128))
    ⟨.invalidBounds, "digest domain must be nonempty ASCII"⟩
  require (name.length < 2 ^ 32) ⟨.arithmeticOverflow, "digest domain exceeds u32"⟩
  pure (sha256 (Bytes.ofNat 4 name.length ++ name ++ encoded))

def digestValue {α : Type} (sha256 : Bytes → Hash) (domain : String) (c : Borsh α) (value : α) :
    Outcome Hash := do
  let encoded ← canonicalBytes c value
  digestEncoded sha256 domain encoded

end Trillionnium.Settlement
