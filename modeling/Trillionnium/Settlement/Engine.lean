import Trillionnium.Settlement.Types

/-!
# Transitions of the service settlement

`engine.rs`: a bilateral chain of signed receipts, one rollup of the whole chain and one settlement
of the escrow. A transition works on a copy of the state, so a failure changes nothing. SHA-256 and
Ed25519 are parameters.
-/

namespace Trillionnium.Settlement

open Lib Pon
open Mvcc (ProtocolContext Borsh u16 u32 u64 u128 hash32 bytes)

structure Crypto where
  sha256 : Bytes → Hash
  /-- The 32 bytes are an Ed25519 public key. -/
  isKey : Hash → Bool
  /-- Strict verification of a 64-byte signature of a message. -/
  verifyStrict : Hash → Bytes → Bytes → Bool

abbrev overflow (message : String) : Failure := ⟨.arithmeticOverflow, message⟩

/-- `usize` to `u64` and `u32`. -/
def countU64 (n : Nat) (message : String) : Outcome U64 :=
  if n < 2 ^ 64 then .ok (BitVec.ofNat 64 n) else .error (overflow message)

def countU32 (n : Nat) (message : String) : Outcome U32 :=
  if n < 2 ^ 32 then .ok (BitVec.ofNat 32 n) else .error (overflow message)

def requireStrictlySorted {K : Type} [LinearOrder K] (keys : List K) (label : String) :
    Outcome Unit :=
  require (keys.IsChain (· < ·)) ⟨.nonCanonical, label ++ " must be strictly sorted and unique"⟩

/-! ## Genesis -/

/-- `initial_state`: the accounts are sorted by their identifier. -/
def initialState (trust : TrustBundle) : KernelState where
  receipts := []
  rollup := none
  settlement := none
  escrow := ⟨trust.escrowId, trust.escrowVersion, trust.escrowFunding, false, none⟩
  result := ⟨trust.resultId, trust.resultRevision, trust.resultStatus, 0, none⟩
  accounts :=
    [⟨trust.providerAccountId, 0, trust.providerOpeningBalance⟩,
      ⟨trust.consumerAccountId, 0, trust.consumerOpeningBalance⟩,
      ⟨trust.protocolAccountId, 0, trust.protocolOpeningBalance⟩].insertionSort
        fun a b => a.accountId ≤ b.accountId

def validatePrice (price : ConsumptionPrice) : Outcome Unit :=
  require (price.resourceId ≠ [] ∧ price.resourceId.length ≤ 128 ∧ price.meterId ≠ [] ∧
    price.meterId.length ≤ 128 ∧ price.unitPrice ≠ 0)
    ⟨.invalidBounds, "price entry is out of bounds"⟩

section
variable (crypto : Crypto)

def validateTrustBundle (trust : TrustBundle) : Outcome Unit := do
  require (trust.schemaVersion = 1 ∧ trust.context.protocolVersion = 1 ∧ trust.context.chainId ≠ [])
    ⟨.invalidContext, "fresh-genesis trust context is invalid"⟩
  require (trust.provider.agentId ≠ trust.consumer.agentId ∧
      trust.provider.keyId ≠ trust.consumer.keyId ∧
      trust.provider.publicKey ≠ trust.consumer.publicKey)
    ⟨.invalidContext, "provider and consumer authorities must be distinct"⟩
  require (crypto.isKey trust.provider.publicKey) ⟨.invalidContext,
    "provider public key is invalid"⟩
  require (crypto.isKey trust.consumer.publicKey) ⟨.invalidContext,
    "consumer public key is invalid"⟩
  require ([trust.providerAccountId, trust.consumerAccountId, trust.protocolAccountId].Nodup)
    ⟨.invalidContext, "settlement accounts must be distinct"⟩
  let policy := trust.settlementPolicy
  require (trust.escrowFunding ≠ 0 ∧ trust.resultStatus = 3 ∧ policy.schemaVersion = 1 ∧
      policy.maximumRollups = 1 ∧ policy.minimumRollupChallengeBlocks ≠ 0 ∧
      policy.protocolFeeDenominator ≠ 0 ∧
      policy.protocolFeeNumerator ≤ policy.protocolFeeDenominator)
    ⟨.invalidBounds, "bounded settlement policy or funding is invalid"⟩
  require (trust.prices ≠ [] ∧ trust.prices.length ≤ 32)
    ⟨.invalidBounds, "price table size is invalid"⟩
  requireStrictlySorted (trust.prices.map ConsumptionPrice.orderKey) "price table"
  forM trust.prices validatePrice
  require (trust.acceptedEvidenceCertificates ≠ [])
    ⟨.invalidBounds, "at least one evidence certificate is required"⟩
  requireStrictlySorted trust.acceptedEvidenceCertificates "evidence certificates"

/-! ## Identifiers -/

def consumptionReceiptId (body : ConsumptionReceiptBody) : Outcome Hash :=
  digestValue crypto.sha256 "trnm.portable.v2.consumption-receipt.v1" ConsumptionReceiptBody.code
    body

def consumptionRollupId (body : ConsumptionRollupBody) : Outcome Hash :=
  digestValue crypto.sha256 "trnm.portable.v2.consumption-rollup.v1" ConsumptionRollupBody.code body

def settlementPolicyHash (policy : SettlementPolicy) : Outcome Hash :=
  digestValue crypto.sha256 "trnm.portable.v2.settlement-policy.v1" SettlementPolicy.code policy

/-! ## Signatures -/

def verifySignatureEntry (registered : RegisteredBilateralKey) (entry : BilateralSignatureEntry)
    (bodyId : Hash) (authorityHeight : U64) (domain : String) : Outcome Unit := do
  require (entry.agentId = registered.agentId ∧ entry.keyId = registered.keyId ∧
      entry.keyRole = 4 ∧ entry.policyRevision = registered.policyRevision ∧
      entry.keyGeneration = registered.keyGeneration ∧ entry.authorityHeight = authorityHeight ∧
      entry.signatureScheme = 0)
    ⟨.unauthorized, "bilateral authority statement does not match the current key"⟩
  let digest ← digestValue crypto.sha256 domain BilateralSignatureStatement.code
    ⟨1, bodyId, entry.agentId, entry.keyId, entry.keyRole, entry.policyRevision,
      entry.keyGeneration, entry.authorityHeight⟩
  require (crypto.isKey registered.publicKey)
    ⟨.invalidSignature, "registered Ed25519 key is invalid"⟩
  require (entry.signature.length = 64)
    ⟨.invalidSignature, "Ed25519 signature length is invalid"⟩
  require (crypto.verifyStrict registered.publicKey digest.bytes entry.signature)
    ⟨.invalidSignature, "bilateral signature verification failed"⟩

def verifyBilateralSignatures (trust : TrustBundle) (bodyId : Hash) (authorityHeight : U64)
    (providerDomain consumerDomain : String)
    (providerEntry consumerEntry : BilateralSignatureEntry) : Outcome Unit := do
  verifySignatureEntry crypto trust.provider providerEntry bodyId authorityHeight providerDomain
  verifySignatureEntry crypto trust.consumer consumerEntry bodyId authorityHeight consumerDomain

/-! ## Receipts -/

def validateCommonBody (trust : TrustBundle) (body : ConsumptionReceiptBody) : Outcome Unit :=
  require (body.schemaVersion = 1 ∧ body.context = trust.context ∧
      body.providerId = trust.provider.agentId ∧ body.consumerId = trust.consumer.agentId ∧
      body.taskId = trust.taskId ∧ body.leaseId = trust.leaseId ∧ body.attempt = trust.attempt ∧
      body.resultId = trust.resultId ∧ body.meterId ≠ [] ∧ body.meterId.length ≤ 128 ∧
      body.relatedPartyPolicyHash = trust.relatedPartyPolicyHash)
    ⟨.invalidContext, "receipt does not bind the bounded trust context"⟩

def validateUsageEntry (entry : ResourceUsage) : Outcome Unit :=
  require (entry.resourceId ≠ [] ∧ entry.resourceId.length ≤ 128 ∧ entry.meterId ≠ [] ∧
    entry.meterId.length ≤ 128 ∧ entry.amount ≠ 0)
    ⟨.invalidBounds, "resource usage entry is invalid"⟩

def validateUsage (usage : List ResourceUsage) : Outcome Unit := do
  require (usage ≠ [] ∧ usage.length ≤ 32) ⟨.invalidBounds, "usage entry count is invalid"⟩
  requireStrictlySorted (usage.map ResourceUsage.orderKey) "resource usage"
  forM usage validateUsageEntry

/-- The total and the accumulator that a key has reached. -/
abbrev PriorMap := OrdMap ResourceKey (U128 × Hash)

variable (prior : Option ConsumptionReceiptState)

/-- What the prior receipt accumulated, by key: an entry replaces an earlier one of its key. -/
def priorMap : PriorMap :=
  match prior with
  | none => ∅
  | some prior => .ofList (prior.receipt.body.cumulativeUsage.map fun entry =>
      (entry.key, entry.totalAmount, entry.accumulatorCommitment))

def accumulatorCode : Borsh ((U16 × Bytes × Bytes × U32 × U16) × U128 × Option Hash × U128 ×
    Hash × U128) :=
  (u16.pair <| bytes.pair <| bytes.pair <| u32.pair u16).pair <|
    u128.pair <| hash32.option.pair <| u128.pair <| hash32.pair u128

/-- One usage entry on top of what its key had reached. -/
def accumulate (entry : ResourceUsage) (prior : U128 × Hash) : Outcome CumulativeResourceUsage := do
  let (priorTotal, priorAccumulator) := prior
  let totalAmount ← checkedAdd priorTotal entry.amount (overflow "cumulative usage overflow")
  let commitment ← digestValue crypto.sha256 "trnm.portable.v2.consumption-usage-accumulator.v1"
    accumulatorCode
    ((entry.resourceClass, entry.resourceId, entry.meterId, entry.meterVersion, entry.unit),
      priorTotal, if 0 < priorTotal then some priorAccumulator else none, entry.amount,
      entry.measurementCommitment, totalAmount)
  pure ⟨entry.resourceClass, entry.resourceId, entry.meterId, entry.meterVersion, totalAmount,
    entry.unit, commitment⟩

/-- The loop of `derive_cumulative_usage`: the first entry of a key takes what the key had
reached. -/
def accumulateAll : PriorMap → List ResourceUsage → Outcome
    (PriorMap × List CumulativeResourceUsage)
  | map, [] => pure (map, [])
  | map, entry :: rest => do
    let output ← accumulate crypto entry ((map.get entry.key).getD (0, Hash.zero))
    let (map, outputs) ← accumulateAll (map.erase entry.key) rest
    pure (map, output :: outputs)

def deriveCumulativeUsage (usage : List ResourceUsage) :
    Outcome (List CumulativeResourceUsage) := do
  let (left, outputs) ← accumulateAll crypto (priorMap prior) usage
  require (left = ∅)
    ⟨.invalidTransition, "bounded receipt must continue every cumulative resource key"⟩
  pure (outputs.insertionSort fun a b => a.orderKey ≤ b.orderKey)

def findPrice (trust : TrustBundle) (entry : ResourceUsage) : Option ConsumptionPrice :=
  trust.prices.find? fun price =>
    price.resourceClass = entry.resourceClass ∧ price.resourceId = entry.resourceId ∧
      price.meterId = entry.meterId ∧ price.meterVersion = entry.meterVersion ∧
      price.unit = entry.unit

def priceEntry (trust : TrustBundle) (total : U128) (entry : ResourceUsage) : Outcome U128 := do
  let price ← okOr (findPrice trust entry) .unauthorized "usage has no committed price"
  let charge ← checkedMul entry.amount price.unitPrice (overflow "usage charge overflow")
  checkedAdd total charge (overflow "period charge overflow")

def priceUsage (trust : TrustBundle) (usage : List ResourceUsage) : Outcome U128 :=
  usage.foldlM (priceEntry trust) 0

/-- The receipt continues the chain of the prior one. -/
def requireSuccessor (body : ConsumptionReceiptBody) :
    Outcome Unit :=
  match prior with
  | none => require (body.priorReceiptId = none ∧ body.sequence = 1)
      ⟨.sequenceGap, "sequence one must have no prior receipt"⟩
  | some prior => do
    require (body.priorReceiptId = some prior.receiptId)
      ⟨.sequenceGap, "receipt prior identity or period is not contiguous"⟩
    let start ← checkedAdd prior.receipt.body.periodEndHeight 1 (overflow "period height overflow")
    require (body.periodStartHeight = start)
      ⟨.sequenceGap, "receipt prior identity or period is not contiguous"⟩

def cumulativeUsageRoot (usage : List CumulativeResourceUsage) : Outcome Hash :=
  digestValue crypto.sha256 "trnm.portable.v2.consumption-cumulative-usage-root.v1"
    CumulativeResourceUsage.code.vec usage

/-- The receipt accounts for its usage on top of the prior receipt. -/
def requireCumulative (body : ConsumptionReceiptBody) :
    Outcome Unit := do
  let expected ← deriveCumulativeUsage crypto prior body.usage
  require (body.cumulativeUsage = expected)
    ⟨.rootMismatch, "cumulative usage preimage or root is invalid"⟩
  let root ← cumulativeUsageRoot crypto expected
  require (body.cumulativeUsageRoot = root)
    ⟨.rootMismatch, "cumulative usage preimage or root is invalid"⟩

def requireCharge (trust : TrustBundle) (prior : Option ConsumptionReceiptState)
    (body : ConsumptionReceiptBody) : Outcome Unit := do
  let period ← priceUsage trust body.usage
  let expected ← checkedAdd ((prior.map (·.receipt.body.cumulativeCharge)).getD 0) period
    (overflow "cumulative charge overflow")
  require (body.cumulativeCharge = expected ∧ expected ≤ trust.escrowFunding)
    ⟨.insufficientFunds, "receipt cumulative charge is invalid or exceeds escrow"⟩

def admitReceipt (trust : TrustBundle) (state : KernelState) (orderHeight : U64)
    (receipt : ConsumptionReceipt) : Outcome KernelState := do
  require (state.rollup = none ∧ state.settlement = none)
    ⟨.invalidTransition, "receipt admission is closed after rollup creation"⟩
  let body := receipt.body
  validateCommonBody trust body
  require (body.periodEndHeight = orderHeight ∧ body.periodStartHeight ≠ 0 ∧
      body.periodStartHeight ≤ body.periodEndHeight)
    ⟨.invalidBounds, "receipt period is not bound to execution height"⟩
  require (body.evidenceCertificateId ∈ trust.acceptedEvidenceCertificates)
    ⟨.unauthorized, "evidence certificate is outside the local trust bundle"⟩
  validateUsage body.usage
  let receiptId ← consumptionReceiptId crypto body
  verifyBilateralSignatures crypto trust receiptId body.periodEndHeight
    "trnm.portable.v2.consumption-receipt-provider-signature.v1"
    "trnm.portable.v2.consumption-receipt-consumer-signature.v1"
    receipt.providerSignature receipt.consumerSignature
  let count ← countU64 state.receipts.length "receipt count exceeds u64"
  let expectedSequence ← checkedAdd count 1 (overflow "receipt sequence overflow")
  require (body.sequence = expectedSequence ∧ state.receipts.length < 1024)
    ⟨.sequenceGap, "receipt sequence is not the exact successor"⟩
  let prior := state.receipts.getLast?
  requireSuccessor prior body
  requireCumulative crypto prior body
  requireCharge trust prior body
  pure { state with receipts := state.receipts ++ [⟨receipt, receiptId, 0, 0, none, orderHeight⟩] }

/-! ## Rollup -/

def requireRollupContext (trust : TrustBundle) (last : ConsumptionReceiptState)
    (body : ConsumptionRollupBody) : Outcome Unit := do
  let mismatch : Failure := ⟨.invalidContext, "rollup does not bind the bounded trust context"⟩
  require (body.schemaVersion = 1 ∧ body.context = trust.context ∧
      body.providerId = trust.provider.agentId ∧ body.consumerId = trust.consumer.agentId ∧
      body.taskId = trust.taskId ∧ body.leaseId = trust.leaseId ∧ body.attempt = trust.attempt ∧
      body.resultId = trust.resultId ∧ body.escrowId = trust.escrowId ∧
      body.relatedPartyPolicyHash = trust.relatedPartyPolicyHash) mismatch
  let policyHash ← settlementPolicyHash crypto trust.settlementPolicy
  require (body.settlementPolicyHash = policyHash) mismatch
  require (body.evidenceCertificateId = last.receipt.body.evidenceCertificateId) mismatch

/-- The receipt identifiers with their sequence numbers, from `index` on. -/
def receiptEntries : Nat → List Hash → Outcome (List (U64 × Hash))
  | _, [] => pure []
  | index, id :: rest => do
    let position ← countU64 index "rollup index exceeds u64"
    let sequence ← checkedAdd position 1 (overflow "rollup sequence overflow")
    let entries ← receiptEntries (index + 1) rest
    pure ((sequence, id) :: entries)

def receiptsRoot (receiptIds : List Hash) : Outcome Hash := do
  let entries ← receiptEntries 0 receiptIds
  digestValue crypto.sha256 "trnm.portable.v2.rollup-receipts-root.candidate.v1"
    (u64.pair hash32).vec entries

/-- The totals of the last receipt as usage entries. -/
def usageTotals (usage : List CumulativeResourceUsage) : List ResourceUsage :=
  usage.map fun entry => ⟨entry.resourceClass, entry.resourceId, entry.meterId, entry.meterVersion,
    entry.totalAmount, entry.unit, entry.accumulatorCommitment⟩

/-- The state of a receipt that the rollup covers. -/
def assignRollup (rollupId : Hash) (receipt : ConsumptionReceiptState) :
    Outcome ConsumptionReceiptState := do
  let version ← checkedAdd receipt.version 1 (overflow "receipt state version overflow")
  pure { receipt with version := version, status := 1, assignedRollupId := some rollupId }

def admitRollup (trust : TrustBundle) (state : KernelState) (orderHeight : U64)
    (rollup : ConsumptionRollup) (suppliedReceipts : List ConsumptionReceipt) :
    Outcome KernelState := do
  require (state.rollup = none ∧ state.settlement = none ∧ state.receipts ≠ [])
    ⟨.invalidTransition, "bounded candidate permits exactly one nonempty rollup"⟩
  let body := rollup.body
  let last ← okOr state.receipts.getLast? .notFound "rollup receipt chain is absent"
  requireRollupContext crypto trust last body
  let count ← countU32 state.receipts.length "receipt count exceeds u32"
  let lastSequence ← countU64 state.receipts.length "receipt count exceeds u64"
  let receiptIds := state.receipts.map (·.receiptId)
  require (suppliedReceipts = state.receipts.map (·.receipt) ∧ body.firstSequence = 1 ∧
      body.lastSequence = lastSequence ∧ body.receiptCount = count ∧ body.receiptIds = receiptIds ∧
      ∀ entry ∈ state.receipts, entry.status = 0 ∧ entry.assignedRollupId = none)
    ⟨.conflict, "rollup interval is incomplete, reordered, or already assigned"⟩
  let root ← receiptsRoot crypto receiptIds
  require (body.receiptsRoot = root) ⟨.rootMismatch, "rollup receipts root is invalid"⟩
  require (body.usageTotals = usageTotals last.receipt.body.cumulativeUsage ∧
      body.totalCharge = last.receipt.body.cumulativeCharge)
    ⟨.conservationViolation, "rollup totals do not equal the exact receipt chain"⟩
  let rollupId ← consumptionRollupId crypto body
  verifyBilateralSignatures crypto trust rollupId orderHeight
    "trnm.portable.v2.consumption-rollup-provider-signature.v1"
    "trnm.portable.v2.consumption-rollup-consumer-signature.v1"
    rollup.providerSignature rollup.consumerSignature
  let closeHeight ← checkedAdd orderHeight trust.settlementPolicy.minimumRollupChallengeBlocks
    (overflow "rollup challenge close height overflow")
  let receipts ← state.receipts.mapM (assignRollup rollupId)
  pure { state with
    receipts := receipts
    rollup := some ⟨rollup, rollupId, 0, orderHeight, closeHeight, 0, none⟩ }

/-! ## Settlement -/

def requireTrigger (trust : TrustBundle) (state : KernelState) (rollup : ConsumptionRollupState)
    (operation : SettlementOperationBody) : Outcome Unit := do
  let stale : Failure := ⟨.staleVersion, "settlement trigger does not match authenticated state"⟩
  require (operation.schemaVersion = 1 ∧ operation.context = trust.context ∧
      operation.taskId = trust.taskId ∧ operation.leaseId = trust.leaseId ∧
      operation.attempt = trust.attempt ∧ operation.resultId = trust.resultId ∧
      operation.expectedResultRevision = state.result.revision ∧
      operation.expectedEscrowVersion = state.escrow.version ∧
      operation.expectedRollupVersion = rollup.version) stale
  let policyHash ← settlementPolicyHash crypto trust.settlementPolicy
  require (operation.settlementPolicyHash = policyHash) stale

structure Division where
  protocolFee : U128
  providerPayment : U128
  consumerRefund : U128

def divide (policy : SettlementPolicy) (balance totalCharge : U128) : Outcome Division := do
  require (totalCharge ≤ balance) ⟨.insufficientFunds, "rollup charge exceeds durable escrow"⟩
  let product ← checkedMul totalCharge policy.protocolFeeNumerator
    (overflow "protocol fee product overflow")
  let fee := product / policy.protocolFeeDenominator
  let payment ← checkedSub totalCharge fee (overflow "provider payment underflow")
  let refund ← checkedSub balance totalCharge (overflow "consumer refund underflow")
  pure ⟨fee, payment, refund⟩

/-- A delta of a positive amount. -/
def delta (trust : TrustBundle) (accountId : Hash) (reason : U16) (amount : U128) :
    List ValueDelta :=
  if 0 < amount then [⟨trust.assetId, accountId, reason, amount⟩] else []

/-- The payments, without the empty ones and in order. -/
def plannedDeltas (trust : TrustBundle) (d : Division) : List ValueDelta :=
  (delta trust trust.providerAccountId 0 d.providerPayment ++
    delta trust trust.consumerAccountId 1 d.consumerRefund ++
    delta trust trust.protocolAccountId 2 d.protocolFee).insertionSort
      fun a b => a.orderKey ≤ b.orderKey

def outputTotal (deltas : List ValueDelta) : Outcome U128 :=
  deltas.foldlM (fun total delta => checkedAdd total delta.amount
    (overflow "settlement output total overflow")) 0

def creditAccount (account : AccountBalanceState) (amount : U128) :
    Outcome AccountBalanceState := do
  let balance ← checkedAdd account.balance amount (overflow "destination balance overflow")
  let version ← checkedAdd account.version 1 (overflow "account version overflow")
  pure { account with balance := balance, version := version }

def accountValueHash (account : AccountBalanceState) : Outcome Hash :=
  digestValue crypto.sha256 "trnm.portable.v2.account-value.candidate.v1"
    (hash32.pair <| u64.pair u128) (account.accountId, account.version, account.balance)

/-- `iter_mut().find`: the first account of the identifier is replaced. -/
def replaceAccount (updated : AccountBalanceState) :
    List AccountBalanceState → List AccountBalanceState
  | [] => []
  | account :: rest =>
    if account.accountId = updated.accountId then updated :: rest
    else account :: replaceAccount updated rest

def applyDelta (accounts : List AccountBalanceState) (delta : ValueDelta) :
    Outcome (List AccountBalanceState × PostAccountVersionEntry) := do
  let account ← okOr (accounts.find? fun account => account.accountId = delta.accountId) .notFound
    "settlement destination account is absent"
  let updated ← creditAccount account delta.amount
  let valueHash ← accountValueHash crypto updated
  pure (replaceAccount updated accounts,
    ⟨updated.accountId, account.version, updated.version, valueHash⟩)

def applyDeltas : List AccountBalanceState → List ValueDelta →
    Outcome (List AccountBalanceState × List PostAccountVersionEntry)
  | accounts, [] => pure (accounts, [])
  | accounts, delta :: rest => do
    let (accounts, entry) ← applyDelta crypto accounts delta
    let (accounts, entries) ← applyDeltas accounts rest
    pure (accounts, entry :: entries)

def conservationCode : Borsh (Hash × Hash × Hash × U128 × U128 × U128 × U128 × U128) :=
  hash32.pair <| hash32.pair <| hash32.pair <| u128.pair <| u128.pair <| u128.pair <| u128.pair u128

def settlementIntent (trust : TrustBundle) (state : KernelState) (rollup : ConsumptionRollupState)
    (d : Division) (deltas : List ValueDelta) (total : U128) : Outcome SettlementIntent := do
  let inputs : List SettlementInput :=
    [⟨trust.assetId, state.escrow.escrowId, state.escrow.version, state.escrow.balance⟩]
  let inputRoot ← digestValue crypto.sha256 "trnm.portable.v2.settlement-input-root.v1"
    SettlementInput.code.vec inputs
  let deltasRoot ← digestValue crypto.sha256 "trnm.portable.v2.planned-deltas-root.v1"
    ValueDelta.code.vec deltas
  let conservationRoot ← digestValue crypto.sha256 "trnm.portable.v2.conservation-root.v1"
    conservationCode (trust.assetId, inputRoot, deltasRoot, state.escrow.balance, total,
      d.providerPayment, d.consumerRefund, d.protocolFee)
  let policyHash ← settlementPolicyHash crypto trust.settlementPolicy
  pure {
    schemaVersion := 1
    context := trust.context
    taskId := trust.taskId
    leaseId := trust.leaseId
    attempt := trust.attempt
    resultId := trust.resultId
    resultRevision := state.result.revision
    resultStatus := state.result.resultStatus
    settlementMaturity := 1
    escrowId := trust.escrowId
    consumptionRollupIds := [rollup.rollupId]
    feeScheduleHash := trust.settlementPolicy.feeScheduleHash
    settlementPolicyHash := policyHash
    inputs := inputs
    inputValueRoot := inputRoot
    plannedDeltas := deltas
    plannedDeltasRoot := deltasRoot
    conservationRoot := conservationRoot }

def applySettlement (trust : TrustBundle) (state : KernelState) (orderHeight : U64)
    (rollup : ConsumptionRollupState) (intent : SettlementIntent) (deltas : List ValueDelta) :
    Outcome (KernelState × Hash) := do
  let settlementId ← digestValue crypto.sha256 "trnm.portable.v2.settlement.v1"
    SettlementIntent.code intent
  let (accounts, entries) ← applyDeltas crypto state.accounts deltas
  let postVersions := entries.insertionSort fun a b => a.accountId ≤ b.accountId
  let postRoot ← digestValue crypto.sha256 "trnm.portable.v2.post-account-versions-root.v1"
    PostAccountVersionEntry.code.vec postVersions
  let escrowVersion ← checkedAdd state.escrow.version 1 (overflow "escrow version overflow")
  let revision ← checkedAdd state.result.revision 1 (overflow "result revision overflow")
  let rollupVersion ← checkedAdd rollup.version 1 (overflow "rollup version overflow")
  let receipt : SettlementReceipt := ⟨1, trust.context, settlementId, trust.taskId, trust.leaseId,
    trust.resultId, trust.escrowId, deltas, postVersions, postRoot, escrowVersion⟩
  pure ({ state with
    accounts := accounts
    escrow := { state.escrow with
      version := escrowVersion
      balance := 0
      closed := true
      lastSettlementId := some settlementId }
    result := { state.result with
      revision := revision
      settlementMaturity := 2
      settlementId := some settlementId }
    rollup := some { rollup with
      version := rollupVersion
      status := 1
      consumedBySettlementId := some settlementId }
    settlement := some ⟨settlementId, 0, intent, 1, receipt, orderHeight⟩ }, settlementId)

def settle (trust : TrustBundle) (state : KernelState) (orderHeight : U64)
    (operation : SettlementOperationBody) : Outcome (KernelState × Hash) := do
  require (state.settlement = none ∧ state.escrow.closed = false)
    ⟨.alreadyConsumed, "settlement is one-shot"⟩
  let rollup ← okOr state.rollup .notFound "rollup is absent"
  requireTrigger crypto trust state rollup operation
  require (state.result.resultStatus = 3 ∧ state.result.settlementMaturity = 0 ∧
      rollup.status = 0 ∧ rollup.consumedBySettlementId = none)
    ⟨.invalidTransition, "result or rollup state cannot settle"⟩
  require (rollup.challengeCloseHeight < orderHeight)
    ⟨.notMature, "rollup challenge window has not closed"⟩
  let division ← divide trust.settlementPolicy state.escrow.balance rollup.rollup.body.totalCharge
  let deltas := plannedDeltas trust division
  let total ← outputTotal deltas
  require (total = state.escrow.balance)
    ⟨.conservationViolation, "settlement outputs do not conserve escrow input"⟩
  let intent ← settlementIntent crypto trust state rollup division deltas total
  applySettlement crypto trust state orderHeight rollup intent deltas

end

/-! ## Transitions -/

section
variable (crypto : Crypto)

def applyTransition (trust : TrustBundle) (state : KernelState) (orderHeight : U64) :
    Command → Outcome (KernelState × Option Hash)
  | .admitReceipt receipt => do
    let next ← admitReceipt crypto trust state orderHeight receipt
    pure (next, none)
  | .admitRollup rollup receipts => do
    let next ← admitRollup crypto trust state orderHeight rollup receipts
    pure (next, none)
  | .settle operation => do
    let (next, settlementId) ← settle crypto trust state orderHeight operation
    pure (next, some settlementId)

end

end Trillionnium.Settlement
