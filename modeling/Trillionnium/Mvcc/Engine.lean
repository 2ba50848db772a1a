import Trillionnium.Mvcc.Types
import Trillionnium.Lib.Workers

/-!
# Block execution

`engine.rs`: the checks of a genesis and of a block, the computation of one transaction against a
map of objects, its commit, and the two schedules of a block: one transaction after another
(`executeBlock`) and by workers that compute every transaction against the parent first
(`executeBlockWithWorkers`).
-/

namespace Trillionnium.Mvcc

open Lib Pon

/-! ## Checked integers -/

section
variable {w : Nat}

abbrev overflow (message : String) : Failure := .coded .arithmeticOverflow message

/-- `try_from` of a length. -/
def ofLength (w n : Nat) (failure : Failure) : Outcome (BitVec w) :=
  if n < 2 ^ w then .ok (BitVec.ofNat w n) else .error failure

/-- The operands of `/` and `%`, which panic on zero. -/
def divisor (b : BitVec w) : Outcome (BitVec w) :=
  if b = 0 then .error (.panicked "attempt to divide by zero") else .ok b

/-- `Ord::clamp`, which panics on an empty range. -/
def clamp (a low high : BitVec w) : Outcome (BitVec w) :=
  if low ≤ high then .ok (max low (min a high))
    else .error (.panicked "assertion failed: min <= max")

end

/-! ## Validation -/

def schemaVersionV1 : U16 := 1
def maxTransactions : Nat := 256
def maxAccessWidth : Nat := 64
def maxExecutionWorkers : Nat := 64

def validateWorkerCount (workerCount : Nat) : Outcome Unit :=
  require (workerCount ≠ 0 ∧ workerCount ≤ maxExecutionWorkers)
    (.coded .invalidBounds "execution worker count is outside frozen candidate bounds")

def requireStrict {K : Type} [LinearOrder K] (keys : List K) (label : String) : Outcome Unit :=
  require (keys.IsChain (· < ·)) (.coded .nonCanonical
    (label ++ " must be strictly sorted and unique"))

/-- The class and the unit of each resource, in the order of the prices. -/
def resourceClasses : List (U16 × U16) := [(0, 1), (2, 1), (3, 1), (7, 3)]

def validateGenesis (genesis : Genesis) : Outcome Unit := do
  require (genesis.schemaVersion = schemaVersionV1 ∧ genesis.context.chainId ≠ [] ∧
      genesis.context.protocolId = Bytes.ofString "trnm-portable-application-v2" ∧
      genesis.context.protocolVersion = 1 ∧ genesis.context.genesisHash ≠ Hash.zero ∧
      genesis.context.profileHash ≠ Hash.zero ∧ genesis.storeId ≠ Hash.zero ∧
      genesis.initialBlockId ≠ Hash.zero ∧ genesis.initialObjects ≠ [] ∧
      genesis.resourcePrices.length = 4 ∧ genesis.destinationSplits ≠ [])
    (.coded .invalidBounds "invalid bounded MVCC genesis")
  requireStrict (genesis.initialObjects.map ObjectState.objectId) "initial objects"
  require (∀ o ∈ genesis.initialObjects, o.schemaVersion = schemaVersionV1 ∧ o.closed = false)
    (.coded .invalidState "invalid initial object")
  requireStrict (genesis.resourcePrices.map fun p => toLex (p.resourceClass,
    toLex (p.resourceId, p.unit))) "resource prices"
  require (∀ x ∈ genesis.resourcePrices.zip resourceClasses,
      (x.1.resourceClass, x.1.unit) = x.2 ∧ x.1.resourceId = [] ∧ x.1.priceDenominator ≠ 0 ∧
        x.1.minimumCharge ≤ x.1.maximumCharge)
    (.coded .invalidBounds "invalid resource price")
  requireStrict (genesis.destinationSplits.map FeeDestinationSplit.destination) "fee destinations"
  let first ← expect genesis.destinationSplits.head? "index out of bounds"
  let denominator := first.denominator
  require (denominator ≠ 0 ∧
      (∀ s ∈ genesis.destinationSplits, s.denominator = denominator ∧ s.numerator ≠ 0) ∧
      ∃ s ∈ genesis.destinationSplits, s.destination = genesis.remainderDestination)
    (.coded .invalidBounds "invalid destination split")
  let numeratorSum ← genesis.destinationSplits.foldlM
    (fun sum s => checkedAdd sum s.numerator (overflow "destination numerator overflow")) 0
  require (numeratorSum = denominator)
    (.coded .conservationViolation "destination splits do not sum to one")
  require (∀ s ∈ genesis.destinationSplits,
      s.destination ∈ genesis.initialObjects.map ObjectState.objectId)
    (.coded .notFound "fee destination object absent")

section
variable (sha256 : Bytes → Hash)

def stateRoot (objects : ObjectMap) : Outcome Hash :=
  digestValue sha256 "trnm.portable.v2.mvcc-object-state-root.candidate.v1" ObjectState.code.vec
    objects.values

def valueHash (value : ObjectState) : Outcome Hash :=
  digestValue sha256 "trnm.portable.v2.mvcc-object-value.candidate.v1" ObjectState.code value

def deriveTransactionId (tx : Transaction) : Outcome Hash :=
  digestValue sha256 "trnm.portable.v2.mvcc-transaction.candidate.v1"
    (u16.pair <| u32.pair <| TypedObjectId.code.pair <| TypedObjectId.code.vec.pair <|
      TypedObjectId.code.vec.pair <| u128.pair <| u128.pair ObjectProgram.code)
    (tx.schemaVersion, tx.transactionIndex, tx.feePayer, tx.declaredReads, tx.declaredWrites,
      tx.computeUnitLimit, tx.maxFee, tx.program)

def deriveBlockId (block : Block) : Outcome Hash :=
  digestValue sha256 "trnm.portable.v2.mvcc-block.candidate.v1"
    (u16.pair <| ProtocolContext.code.pair <| u64.pair <| u64.pair <| hash32.pair <| hash32.pair
      Transaction.code.vec)
    (block.schemaVersion, block.context, block.height, block.expectedParentHeight,
      block.expectedParentBlockId, block.expectedParentStateRoot, block.transactions)

/-- The objects a transaction reads and writes: its fee payer and those of its program. -/
def Transaction.touched (tx : Transaction) : List TypedObjectId :=
  match tx.program with
  | .add target _ => [tx.feePayer, target]
  | .transfer source destination _ => [tx.feePayer, source, destination]
  | .revert _ => [tx.feePayer]

def requireDistinct (tx : Transaction) : Outcome Unit :=
  match tx.program with
  | .add target _ =>
    require (target ≠ tx.feePayer) (.coded .duplicateAccess "fee payer and target must differ")
  | .transfer source destination _ =>
    require (source ≠ destination ∧ source ≠ tx.feePayer ∧ destination ≠ tx.feePayer)
      (.coded .duplicateAccess "bounded transfer objects must be distinct")
  | .revert _ => pure ()

def expectedAccess (tx : Transaction) : Outcome (List TypedObjectId) := do
  requireDistinct tx
  pure (tx.touched.insertionSort (· ≤ ·))

def validateTransaction (destinations : List TypedObjectId) (seen : List Hash) (index : Nat)
    (tx : Transaction) : Outcome Unit := do
  let invalid : Failure := .coded .invalidBounds "invalid transaction identity/bounds"
  let index ← ofLength 32 index (overflow "index overflow")
  require (tx.schemaVersion = schemaVersionV1 ∧ tx.transactionIndex = index ∧
    tx.transactionId ≠ Hash.zero) invalid
  let id ← deriveTransactionId sha256 tx
  require (tx.transactionId = id ∧ tx.transactionId ∉ seen ∧ tx.computeUnitLimit ≠ 0 ∧
    tx.maxFee ≠ 0 ∧ tx.declaredReads.length ≤ maxAccessWidth ∧
    tx.declaredWrites.length ≤ maxAccessWidth ∧ tx.feePayer ∉ destinations) invalid
  requireStrict tx.declaredReads "declared reads"
  requireStrict tx.declaredWrites "declared writes"
  let expected ← expectedAccess tx
  require (tx.declaredReads = expected ∧ tx.declaredWrites = expected)
    (.coded .undeclaredAccess "declared access does not match program")

/-- The transactions from position `index` on, after those with the identifiers `seen`. -/
def validateTransactions (destinations : List TypedObjectId) (seen : List Hash) (index : Nat) :
    List Transaction → Outcome Unit
  | [] => .ok ()
  | tx :: rest => do
    validateTransaction sha256 destinations seen index tx
    validateTransactions destinations (tx.transactionId :: seen) (index + 1) rest

def validateBlock (genesis : Genesis) (parent : ObjectMap) (block : Block) : Outcome Unit := do
  let invalid : Failure := .coded .invalidContext "invalid block context/id/parent"
  require (block.schemaVersion = schemaVersionV1 ∧ block.context = genesis.context ∧
    block.blockId ≠ Hash.zero ∧ block.transactions ≠ [] ∧
    block.transactions.length ≤ maxTransactions) invalid
  let root ← stateRoot sha256 parent
  require (block.expectedParentStateRoot = root) invalid
  let id ← deriveBlockId sha256 block
  require (block.blockId = id) invalid
  validateTransactions sha256 (genesis.destinationSplits.map FeeDestinationSplit.destination) [] 0
    block.transactions

/-! ## One transaction -/

variable (state : ObjectMap)

def readSetEntry (id : TypedObjectId) : Outcome ReadSetEntry := do
  let value ← okOr (state.get id) .notFound "declared object absent"
  require (value.closed = false) (.coded .invalidState "declared object closed")
  let hash ← valueHash sha256 value
  pure ⟨id, value.version, hash⟩

def readSet (tx : Transaction) : Outcome (List ReadSetEntry) :=
  tx.declaredReads.mapM (readSetEntry sha256 state)

def requiredCompute : ObjectProgram → U128
  | .add _ _ => 10
  | .transfer _ _ _ => 20
  | .revert _ => 5

/-- The status, the error class and the charged compute units. -/
def disposition (tx : Transaction) : ReceiptStatus × Option U16 × U128 :=
  match tx.program with
  | .revert errorClass => (.reverted, some errorClass, requiredCompute tx.program)
  | _ =>
    if tx.computeUnitLimit < requiredCompute tx.program then
      (.outOfResource, some 1, tx.computeUnitLimit)
    else (.success, none, requiredCompute tx.program)

def appWriteCount : ObjectProgram → ReceiptStatus → Nat
  | .add _ _, .success => 1
  | .transfer _ _ _, .success => 2
  | _, _ => 0

def readBytes (reads : List ReadSetEntry) : Outcome U128 :=
  reads.foldlM (fun sum entry => do
    let object ← expect (state.get entry.objectId) "read set was derived from state"
    let body ← canonicalBytes ObjectState.code object
    let len ← ofLength 128 body.length (overflow "read byte count overflow")
    checkedAdd sum len (overflow "read bytes overflow")) 0

def writeBytes (tx : Transaction) (status : ReceiptStatus) : Outcome U128 := do
  let payer ← okOr (state.get tx.feePayer) .notFound "fee payer absent"
  let body ← canonicalBytes ObjectState.code payer
  let objectSize ← ofLength 128 body.length (overflow "write byte count overflow")
  let writeCount ← ofLength 128 (appWriteCount tx.program status + 1)
    (overflow "write count overflow")
  checkedMul objectSize writeCount (overflow "write bytes overflow")

def orderedBytes (tx : Transaction) : Outcome U128 := do
  let body ← canonicalBytes Transaction.code tx
  ofLength 128 body.length (overflow "ordered bytes overflow")

def measure (tx : Transaction) (row : (U16 × U16) × U128) : Outcome ResourceUsage := do
  let commitment ← digestValue sha256 "trnm.portable.v2.resource-measurement.candidate.v1"
    (hash32.pair <| u32.pair <| u16.pair <| u128.pair u16)
    (tx.transactionId, tx.transactionIndex, row.1.1, row.2, row.1.2)
  pure { resourceClass := row.1.1, resourceId := [],
         meterId := Bytes.ofString "trnm-reference-meter", meterVersion := 1, amount := row.2,
         unit := row.1.2, measurementCommitment := commitment }

def resourceUsage (tx : Transaction) (reads : List ReadSetEntry) :
    Outcome (List ResourceUsage) := do
  let readBytes ← readBytes state reads
  let writeBytes ← writeBytes state tx (disposition tx).1
  let orderedBytes ← orderedBytes tx
  (resourceClasses.zip [orderedBytes, readBytes, writeBytes, (disposition tx).2.2]).mapM
    (measure sha256 tx)

/-- The charge for one metered amount, rounded up and clamped. -/
def charge (price : ResourcePrice) (item : ResourceUsage) : Outcome U128 := do
  require ((price.resourceClass, price.resourceId, price.unit) =
      (item.resourceClass, item.resourceId, item.unit))
    (.coded .invalidState "usage has no exact committed price")
  let numerator ← checkedMul item.amount price.priceNumerator
    (overflow "resource charge multiply overflow")
  let denominator ← divisor price.priceDenominator
  let rounded ← checkedAdd (numerator / denominator) (if numerator % denominator ≠ 0 then 1 else 0)
    (overflow "resource charge rounding overflow")
  clamp rounded price.minimumCharge price.maximumCharge

def calculateFee (prices : List ResourcePrice) (usage : List ResourceUsage) : Outcome U128 :=
  (prices.zip usage).foldlM (fun sum x => do
    let charge ← charge x.1 x.2
    checkedAdd sum charge (overflow "fee total overflow")) 0

/-- The objects that the program of a successful transaction replaces. -/
def programSuccessors (tx : Transaction) : Outcome ObjectMap :=
  match tx.program with
  | .add target amount => do
    let object ← okOr (state.get target) .notFound "add target absent"
    let value ← checkedAdd object.value amount (overflow "add overflow")
    let version ← checkedAdd object.version 1 (overflow "object version overflow")
    pure (OrdMap.empty.insert target { object with value := value, version := version })
  | .transfer source destination amount => do
    let origin ← okOr (state.get source) .notFound "transfer source absent"
    let target ← okOr (state.get destination) .notFound "transfer destination absent"
    require (amount ≤ origin.value) (.coded .insufficientFunds "transfer source insufficient")
    let originValue ← checkedSub origin.value amount (overflow "transfer source underflow")
    let targetValue ← checkedAdd target.value amount (overflow "transfer destination overflow")
    let originVersion ← checkedAdd origin.version 1 (overflow "source version overflow")
    let targetVersion ← checkedAdd target.version 1 (overflow "destination version overflow")
    pure ((OrdMap.empty.insert
      source { origin with value := originValue, version := originVersion }).insert
      destination { target with value := targetValue, version := targetVersion })
  | .revert _ => .error (.panicked "revert is not successful")

def appSuccessors (tx : Transaction) : Outcome ObjectMap :=
  if (disposition tx).1 = .success then programSuccessors state tx else pure ∅

def payerSuccessor (payer : ObjectState) (fee : U128) : Outcome ObjectState := do
  let value ← checkedSub payer.value fee (overflow "payer fee underflow")
  let version ← checkedAdd payer.version 1 (overflow "payer version overflow")
  pure { payer with value := value, version := version }

def writeSetEntry (write : TypedObjectId × ObjectState) :
    Outcome WriteSetEntry := do
  let prior ← expect (state.get write.1) "successor objects were loaded from state"
  let hash ← valueHash sha256 write.2
  pure ⟨write.1, prior.version, write.2.version, hash⟩

/-- The share of one destination, before the remainder is assigned. -/
def feeShare (source : TypedObjectId) (fee : U128) (split : FeeDestinationSplit) :
    Outcome FeeDelta := do
  let product ← checkedMul fee split.numerator (overflow "fee split multiply overflow")
  let denominator ← divisor split.denominator
  pure ⟨source, split.destination, product / denominator⟩

/-- Add the remainder to the first share of its destination. -/
def addRemainder (destination : TypedObjectId) (remainder : U128) :
    List FeeDelta → Outcome (List FeeDelta)
  | [] => .error (.coded .invalidState "remainder destination absent")
  | delta :: rest =>
    if delta.destination = destination then do
      let amount ← checkedAdd delta.amount remainder (overflow "remainder overflow")
      pure ({ delta with amount := amount } :: rest)
    else do
      let rest ← addRemainder destination remainder rest
      pure (delta :: rest)

def splitFee (genesis : Genesis) (source : TypedObjectId) (fee : U128) :
    Outcome (List FeeDelta) := do
  let (shares, assigned) ← genesis.destinationSplits.foldlM (fun acc split => do
    let share ← feeShare source fee split
    let assigned ← checkedAdd acc.2 share.amount (overflow "fee split sum overflow")
    pure (acc.1 ++ [share], assigned)) ([], 0)
  let remainder ← checkedSub fee assigned (.coded .conservationViolation "fee split exceeds fee")
  let output ← addRemainder genesis.remainderDestination remainder shares
  let total ← output.foldlM
    (fun sum delta => checkedAdd sum delta.amount (overflow "fee delta sum overflow")) 0
  require (total = fee) (.coded .conservationViolation "fee deltas do not conserve")
  pure output

structure Computation where
  successors : ObjectMap
  status : ReceiptStatus
  errorClass : Option U16
  readSet : List ReadSetEntry
  writeSet : List WriteSetEntry
  readSetRoot : Hash
  writeSetRoot : Hash
  stateDeltaRoot : Hash
  resourceUsage : List ResourceUsage
  feeCharged : U128
  refundAmount : U128
  feeDeltas : List FeeDelta

/-- The objects a transaction replaces: those of its program and its fee payer. -/
def successorsOf (tx : Transaction) (fee : U128) : Outcome ObjectMap := do
  let payer ← okOr (state.get tx.feePayer) .notFound "fee payer absent"
  require (fee ≤ payer.value) (.coded .insufficientFunds "fee payer balance insufficient")
  let successors ← appSuccessors state tx
  let payer ← payerSuccessor payer fee
  pure (successors.insert tx.feePayer payer)

def computeTransaction (genesis : Genesis) (state : ObjectMap) (tx : Transaction)
    (reads : List ReadSetEntry) : Outcome Computation := do
  let usage ← resourceUsage sha256 state tx reads
  let fee ← calculateFee genesis.resourcePrices usage
  require (fee ≤ tx.maxFee)
    (.coded .feeLimitExceeded "computed fee exceeds transaction ceiling")
  let successors ← successorsOf state tx fee
  let writeSet ← successors.entries.mapM (writeSetEntry sha256 state)
  let feeDeltas ← splitFee genesis tx.feePayer fee
  let readSetRoot ← digestValue sha256 "trnm.portable.v2.read-set-root.candidate.v1"
    ReadSetEntry.code.vec reads
  let writeSetRoot ← digestValue sha256 "trnm.portable.v2.write-set-root.candidate.v1"
    WriteSetEntry.code.vec writeSet
  let stateDeltaRoot ← digestValue sha256 "trnm.portable.v2.state-delta-root.candidate.v1"
    WriteSetEntry.code.vec writeSet
  let refund ← checkedSub tx.maxFee fee (overflow "refund underflow")
  pure ⟨successors, (disposition tx).1, (disposition tx).2.1, reads, writeSet, readSetRoot,
    writeSetRoot, stateDeltaRoot, usage, fee, refund, feeDeltas⟩

/-! ## Commit -/

abbrev PendingFees := OrdMap (TypedObjectId ×ₗ TypedObjectId) U128

structure Progress where
  current : ObjectMap
  pendingFees : PendingFees
  receipts : List TransactionReceipt

def addPending (pending : PendingFees) (delta : FeeDelta) : Outcome PendingFees := do
  let key := toLex (delta.source, delta.destination)
  let amount ← checkedAdd ((pending.get key).getD 0) delta.amount
    (overflow "pending fee delta overflow")
  pure (pending.insert key amount)

def reducePendingFees (pending : PendingFees) : List FeeDelta :=
  pending.entries.map fun e => ⟨(ofLex e.1).1, (ofLex e.1).2, e.2⟩

def commitComputed (progress : Progress) (tx : Transaction) (computed : Computation)
    (conflicts : List TypedObjectId) : Outcome Progress := do
  let current := progress.current.extend computed.successors
  let pending ← computed.feeDeltas.foldlM addPending progress.pendingFees
  let root ← digestValue sha256 "trnm.portable.v2.mvcc-intermediate-state-root.candidate.v1"
    (ObjectState.code.vec.pair FeeDelta.code.vec) (current.values, reducePendingFees pending)
  let receipt : TransactionReceipt :=
    { schemaVersion := schemaVersionV1, transactionId := tx.transactionId,
      transactionIndex := tx.transactionIndex, status := computed.status,
      errorClass := computed.errorClass, readSet := computed.readSet, writeSet := computed.writeSet,
      readSetRoot := computed.readSetRoot, writeSetRoot := computed.writeSetRoot,
      stateDeltaRoot := computed.stateDeltaRoot, postTransactionStateRoot := root,
      resourceUsage := computed.resourceUsage, feeCharged := computed.feeCharged,
      refundAmount := computed.refundAmount, feeDeltas := computed.feeDeltas,
      conflictSet := conflicts, retryCount := if conflicts = [] then 0 else 1 }
  pure ⟨current, pending, progress.receipts ++ [receipt]⟩

def conflictingObjects (initial current : List ReadSetEntry) : List TypedObjectId :=
  (initial.zip current).filterMap fun x =>
    if x.1.observedVersion ≠ x.2.observedVersion ∨
        x.1.observedValueHash ≠ x.2.observedValueHash then
      some x.2.objectId
    else none

/-! ## The end of a block -/

def addCredit (credits : OrdMap TypedObjectId U128) (delta : FeeDelta) :
    Outcome (OrdMap TypedObjectId U128) := do
  let amount ← checkedAdd ((credits.get delta.destination).getD 0) delta.amount
    (overflow "destination credit overflow")
  pure (credits.insert delta.destination amount)

def reduceDestinationCredits (deltas : List FeeDelta) : Outcome (List DestinationFeeCredit) := do
  let credits ← deltas.foldlM addCredit ∅
  pure (credits.entries.map fun e => ⟨e.1, e.2⟩)

def applyDestinationCredit (credit : DestinationFeeCredit) : Outcome ObjectMap := do
  let object ← okOr (state.get credit.destination) .notFound "fee destination absent"
  let value ← checkedAdd object.value credit.amount (overflow "fee destination value overflow")
  let version ← checkedAdd object.version 1 (overflow "fee destination version overflow")
  pure (state.insert credit.destination { object with value := value, version := version })

def applyDestinationCredits (credits : List DestinationFeeCredit) :
    Outcome ObjectMap :=
  credits.foldlM applyDestinationCredit state

abbrev ResourceKey := U16 ×ₗ Bytes ×ₗ Bytes ×ₗ U32 ×ₗ U16

def addUsage (totals : OrdMap ResourceKey U128) (usage : ResourceUsage) :
    Outcome (OrdMap ResourceKey U128) := do
  let key := toLex (usage.resourceClass, toLex (usage.resourceId, toLex (usage.meterId,
    toLex (usage.meterVersion, usage.unit))))
  let amount ← checkedAdd ((totals.get key).getD 0) usage.amount
    (overflow "resource total overflow")
  pure (totals.insert key amount)

def aggregateResources (receipts : List TransactionReceipt) : Outcome (List ResourceUsage) := do
  let totals ← (receipts.flatMap TransactionReceipt.resourceUsage).foldlM addUsage ∅
  totals.entries.mapM fun (key, amount) => do
    let (cls, rest) := ofLex key
    let (resourceId, rest) := ofLex rest
    let (meterId, rest) := ofLex rest
    let (meterVersion, unit) := ofLex rest
    let commitment ← digestValue sha256 "trnm.portable.v2.block-resource-total.candidate.v1"
      (u16.pair <| u128.pair u16) (cls, amount, unit)
    pure ⟨cls, resourceId, meterId, meterVersion, amount, unit, commitment⟩

def finishBlock (genesis : Genesis) (block : Block) (parentRoot : Hash) (progress : Progress) :
    Outcome (ObjectMap × BlockReceipt) := do
  let deltas := reducePendingFees progress.pendingFees
  let credits ← reduceDestinationCredits deltas
  let current ← applyDestinationCredits progress.current credits
  let finalRoot ← stateRoot sha256 current
  let totals ← aggregateResources sha256 progress.receipts
  let receiptsRoot ← digestValue sha256 "trnm.portable.v2.mvcc-receipts-root.candidate.v1"
    TransactionReceipt.code.vec progress.receipts
  let totalsRoot ← digestValue sha256 "trnm.portable.v2.mvcc-resource-totals-root.candidate.v1"
    ResourceUsage.code.vec totals
  let feeRoot ← digestValue sha256 "trnm.portable.v2.mvcc-fee-deltas-root.candidate.v1"
    (FeeDelta.code.vec.pair DestinationFeeCredit.code.vec) (deltas, credits)
  let resolutionRoot ← digestValue sha256 "trnm.portable.v2.mvcc-resolution-root.candidate.v1"
    (hash32.pair <| TypedObjectId.code.vec.pair u32).vec
    (progress.receipts.map fun r => (r.transactionId, r.conflictSet, r.retryCount))
  let count ← ofLength 32 progress.receipts.length (overflow "transaction count overflow")
  pure (current,
    { schemaVersion := schemaVersionV1, storeId := genesis.storeId, blockId := block.blockId,
      height := block.height, parentStateRoot := parentRoot, finalStateRoot := finalRoot,
      receiptsRoot := receiptsRoot, resourceTotalsRoot := totalsRoot, feeDeltasRoot := feeRoot,
      mvccResolutionRoot := resolutionRoot, transactionCount := count,
      receipts := progress.receipts, resourceTotals := totals, aggregatedFeeDeltas := deltas,
      destinationCredits := credits })

/-! ## Schedules -/

/-- One round of the sequential loop. -/
def executeOne (genesis : Genesis) (progress : Progress) (x : Transaction × List ReadSetEntry) :
    Outcome Progress := do
  let currentReads ← readSet sha256 progress.current x.1
  let conflicts := conflictingObjects x.2 currentReads
  let computed ← computeTransaction sha256 genesis progress.current x.1 currentReads
  commitComputed sha256 progress x.1 computed conflicts

/-- `execute_block`: one transaction after another. -/
def executeBlock (genesis : Genesis) (parent : ObjectMap) (block : Block) :
    Outcome (ObjectMap × BlockReceipt) := do
  validateBlock sha256 genesis parent block
  let parentRoot ← stateRoot sha256 parent
  let parentReads ← block.transactions.mapM (readSet sha256 parent)
  let progress ← (block.transactions.zip parentReads).foldlM (executeOne sha256 genesis)
    ⟨parent, ∅, []⟩
  finishBlock sha256 genesis block parentRoot progress

structure Speculative where
  parentReads : List ReadSetEntry
  computed : Outcome Computation

/-- What a worker computes for one of its transactions. -/
def speculate (genesis : Genesis) (parent : ObjectMap) (tx : Transaction) :
    Outcome Speculative := do
  let parentReads ← readSet sha256 parent tx
  pure ⟨parentReads, computeTransaction sha256 genesis parent tx parentReads⟩

/-- A panic of the row is a panic of its worker. -/
def rowPanics : Outcome Speculative → Bool
  | .error (.panicked _) => true
  | .ok ⟨_, .error (.panicked _)⟩ => true
  | _ => false

/-- All workers are joined before an error is selected, in transaction order. -/
def parallelSpeculative (genesis : Genesis) (parent : ObjectMap) (transactions : List Transaction)
    (workerCount : Nat) : Outcome (List Speculative) := do
  validateWorkerCount workerCount
  let activeWorkers := min workerCount (max transactions.length 1)
  let rows : List (Nat × Outcome Speculative) :=
    (joined activeWorkers transactions).map fun x => (x.2, speculate sha256 genesis parent x.1)
  require (∀ row ∈ rows, rowPanics row.2 = false)
    (.coded .invalidState "parallel speculation worker panicked")
  (fill rows (List.replicate transactions.length none)).mapM fun row => do
    let row ← okOr row .invalidState "parallel speculation omitted a canonical transaction"
    row

/-- A computation whose reads are unchanged is used as it is, its error included. -/
def selectComputed (genesis : Genesis) (current : ObjectMap) (x : Transaction × Speculative)
    (conflicts : List TypedObjectId) (currentReads : List ReadSetEntry) : Outcome Computation :=
  if conflicts = [] then x.2.computed
  else computeTransaction sha256 genesis current x.1 currentReads

/-- One round of the loop over speculated transactions. -/
def executeSpeculated (genesis : Genesis) (progress : Progress) (x : Transaction × Speculative) :
    Outcome Progress := do
  let currentReads ← readSet sha256 progress.current x.1
  let conflicts := conflictingObjects x.2.parentReads currentReads
  let computed ← selectComputed sha256 genesis progress.current x conflicts currentReads
  commitComputed sha256 progress x.1 computed conflicts

def executeBlockWithWorkers (genesis : Genesis) (parent : ObjectMap) (block : Block)
    (workerCount : Nat) : Outcome (ObjectMap × BlockReceipt) := do
  validateWorkerCount workerCount
  validateBlock sha256 genesis parent block
  let parentRoot ← stateRoot sha256 parent
  let speculative ← parallelSpeculative sha256 genesis parent block.transactions workerCount
  let progress ← (block.transactions.zip speculative).foldlM (executeSpeculated sha256 genesis)
    ⟨parent, ∅, []⟩
  finishBlock sha256 genesis block parentRoot progress

end

end Trillionnium.Mvcc
