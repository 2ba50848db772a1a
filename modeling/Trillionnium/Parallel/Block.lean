import Trillionnium.Hash
import Trillionnium.Lib.Workers

/-!
# Bounded parallel execution

`deterministic_parallel_v1.rs`: workers execute every transaction of a block against one parent
snapshot, and a commit loop in index order keeps a result whose declared reads still have the
versions it was computed from and executes the transaction again otherwise. Integers are `Nat` and
`Int`, with the overflow checks of the source; SHA-256 is a parameter.
-/

namespace Trillionnium.Parallel

open Lib Pon

inductive ExecutionError where
  | emptyBlock
  | invalidWorkerCount
  | nonCanonicalTransactionIndex
  | zeroIdentifier
  | duplicateTransactionId
  | nonCanonicalAccessSet
  | undeclaredRead
  | undeclaredWrite
  | duplicateInstructionWrite
  | missingObject
  | arithmeticOverflow
  | objectVersionOverflow
  | feeLimitExceeded
  | workerPanicked
  | missingWorkerResult

abbrev Outcome (α : Type) := Except ExecutionError α

/-! ## Checked integers -/

/-- A number that must fit an unsigned integer of `bits` bits. -/
def fits (bits n : Nat) (e : ExecutionError) : Outcome Nat :=
  if n < 2 ^ bits then .ok n else .error e

/-- The range of `i128`. -/
def InI128 (n : Int) : Prop := -2 ^ 127 ≤ n ∧ n < 2 ^ 127

instance (n : Int) : Decidable (InI128 n) := inferInstanceAs (Decidable (_ ∧ _))

def checkedAdd (a b : Int) : Outcome Int :=
  if InI128 (a + b) then .ok (a + b) else .error .arithmeticOverflow

@[simp] theorem fits_eq_ok {bits n m : Nat} {e : ExecutionError} :
    fits bits n e = .ok m ↔ n < 2 ^ bits ∧ n = m := by
  unfold fits
  split <;> simp [*]

/-! ## State -/

structure VersionedValue where
  version : Nat
  value : Int

abbrev State := OrdMap Hash VersionedValue

def requireNonzero (value : Hash) : Outcome Unit := require (value ≠ Hash.zero) .zeroIdentifier

variable (state : State)

/-- The object at `id`, which must exist. -/
def load (id : Hash) : Outcome VersionedValue :=
  (state.get id).elim (.error .missingObject) .ok

/-! ## Transactions -/

inductive Instruction where
  | set (target : Hash) (value : Int)
  | addFromRead (target source : Hash) (delta : Int)

def Instruction.target : Instruction → Hash
  | .set target _ => target
  | .addFromRead target _ _ => target

def Instruction.source : Instruction → Option Hash
  | .set _ _ => none
  | .addFromRead _ source _ => some source

structure ResourceVector where
  computeUnits : Nat
  stateReadUnits : Nat
  stateWriteUnits : Nat
  artifactUnits : Nat
  deriving Inhabited

def ResourceVector.exceeds (usage limit : ResourceVector) : Bool :=
  usage.computeUnits > limit.computeUnits || usage.stateReadUnits > limit.stateReadUnits ||
    usage.stateWriteUnits > limit.stateWriteUnits || usage.artifactUnits > limit.artifactUnits

structure FeeSchedule where
  baseFee : Nat
  computeUnitPrice : Nat
  stateReadUnitPrice : Nat
  stateWriteUnitPrice : Nat
  artifactUnitPrice : Nat

def checkedFeeComponent (current units price : Nat) : Outcome Nat := do
  let component ← fits 128 (units * price) .arithmeticOverflow
  fits 128 (current + component) .arithmeticOverflow

def FeeSchedule.feeFor (schedule : FeeSchedule) (usage : ResourceVector) : Outcome Nat := do
  let total ← checkedFeeComponent schedule.baseFee usage.computeUnits schedule.computeUnitPrice
  let total ← checkedFeeComponent total usage.stateReadUnits schedule.stateReadUnitPrice
  let total ← checkedFeeComponent total usage.stateWriteUnits schedule.stateWriteUnitPrice
  checkedFeeComponent total usage.artifactUnits schedule.artifactUnitPrice

structure Transaction where
  index : Nat
  transactionId : Hash
  payer : Hash
  declaredReads : List Hash
  declaredWrites : List Hash
  instructions : List Instruction
  baseComputeUnits : Nat
  artifactUnits : Nat
  resourceLimit : ResourceVector
  maxFee : Nat
  forceRevert : Bool
  deriving Inhabited

inductive ReceiptStatus where
  | success
  | reverted
  | outOfResource
  deriving DecidableEq, Inhabited

def ReceiptStatus.tag : ReceiptStatus → UInt8
  | .success => 0
  | .reverted => 1
  | .outOfResource => 2

structure Speculated where
  transaction : Transaction
  readVersions : OrdMap Hash Nat
  writes : OrdMap Hash Int
  status : ReceiptStatus
  usage : ResourceVector
  feeCharged : Nat
  deriving Inhabited

/-! ## Validation -/

/-- The items are nonzero and strictly increasing from `previous` on. -/
def validateAccessSetFrom (previous : Option Hash) : List Hash → Outcome Unit
  | [] => .ok ()
  | value :: rest => do
    requireNonzero value
    require (∀ item ∈ previous, item < value) .nonCanonicalAccessSet
    validateAccessSetFrom (some value) rest

def validateAccessSet (values : List Hash) : Outcome Unit := validateAccessSetFrom none values

/-- Record what an instruction reads and writes; no object is written twice. -/
def addAccess (access : OrdMap Hash Unit × OrdMap Hash Unit) (instruction : Instruction) :
    Outcome (OrdMap Hash Unit × OrdMap Hash Unit) := do
  requireNonzero instruction.target
  require (access.2.get instruction.target = none) .duplicateInstructionWrite
  let writes := access.2.insert instruction.target ()
  match instruction.source with
  | none => pure (access.1, writes)
  | some source => do
    requireNonzero source
    pure (access.1.insert source (), writes)

/-- The sets of the objects that the instructions read and write. -/
def actualAccess (instructions : List Instruction) :
    Outcome (OrdMap Hash Unit × OrdMap Hash Unit) :=
  instructions.foldlM addAccess (∅, ∅)

/-- `BTreeSet` of a list. -/
def idSet (ids : List Hash) : OrdMap Hash Unit := .ofList (ids.map fun id => (id, ()))

variable (transaction : Transaction)

def validateTransaction : Outcome Unit := do
  validateAccessSet transaction.declaredReads
  validateAccessSet transaction.declaredWrites
  let actual ← actualAccess transaction.instructions
  require (actual.1 = idSet transaction.declaredReads) .undeclaredRead
  require (actual.2 = idSet transaction.declaredWrites) .undeclaredWrite

def maxParallelWorkers : Nat := 64

/-- The transactions from position `expectedIndex` on, after those with the identifiers `seen`. -/
def validateFrom (seen : List Hash) (expectedIndex : Nat) : List Transaction → Outcome Unit
  | [] => .ok ()
  | transaction :: rest => do
    let index ← fits 32 expectedIndex .nonCanonicalTransactionIndex
    require (transaction.index = index) .nonCanonicalTransactionIndex
    requireNonzero transaction.transactionId
    requireNonzero transaction.payer
    require (transaction.transactionId ∉ seen) .duplicateTransactionId
    validateTransaction transaction
    validateFrom (transaction.transactionId :: seen) (expectedIndex + 1) rest

def validateBlock (transactions : List Transaction) (workerCount : Nat) : Outcome Unit := do
  require (transactions ≠ []) .emptyBlock
  require (workerCount ≠ 0 ∧ workerCount ≤ maxParallelWorkers) .invalidWorkerCount
  validateFrom [] 0 transactions

/-! ## One transaction -/

def usageOf : Outcome ResourceVector := do
  let instructionUnits ← fits 64 transaction.instructions.length .arithmeticOverflow
  let computeUnits ← fits 64 (transaction.baseComputeUnits + instructionUnits) .arithmeticOverflow
  let stateReadUnits ← fits 64 transaction.declaredReads.length .arithmeticOverflow
  let stateWriteUnits ← fits 64 transaction.declaredWrites.length .arithmeticOverflow
  pure ⟨computeUnits, stateReadUnits, stateWriteUnits, transaction.artifactUnits⟩

/-- What the transaction uses and is charged. -/
def meter (schedule : FeeSchedule) (transaction : Transaction) :
    Outcome (ResourceVector × Nat) := do
  let usage ← usageOf transaction
  let feeCharged ← schedule.feeFor usage
  require (feeCharged ≤ transaction.maxFee) .feeLimitExceeded
  pure (usage, feeCharged)

def statusOf (usage : ResourceVector) : ReceiptStatus :=
  if usage.exceeds transaction.resourceLimit then .outOfResource
  else if transaction.forceRevert then .reverted
  else .success

def readVersions (ids : List Hash) : Outcome (OrdMap Hash Nat) := do
  let rows ← ids.mapM fun id => do
    let value ← load state id
    pure (id, value.version)
  pure (.ofList rows)

/-- The object an instruction writes, with its new value. -/
def Instruction.run : Instruction → Outcome (Hash × Int)
  | .set target value => .ok (target, value)
  | .addFromRead target source delta => do
    let sourceValue ← load state source
    let value ← checkedAdd sourceValue.value delta
    pure (target, value)

def runInstructions (instructions : List Instruction) : Outcome (OrdMap Hash Int) := do
  let rows ← instructions.mapM (Instruction.run state)
  pure (.ofList rows)

/-- Only a successful transaction computes writes. -/
def writesOf (status : ReceiptStatus) :
    Outcome (OrdMap Hash Int) :=
  if status = .success then runInstructions state transaction.instructions else pure ∅

def executeTransaction (schedule : FeeSchedule) :
    Outcome Speculated := do
  let (usage, feeCharged) ← meter schedule transaction
  let readVersions ← readVersions state transaction.declaredReads
  forM transaction.declaredWrites fun id => require (state.get id ≠ none) .missingObject
  let status := statusOf transaction usage
  let writes ← writesOf state transaction status
  pure ⟨transaction, readVersions, writes, status, usage, feeCharged⟩

/-- All writes are checked before the first is made. -/
def applyWrites (writes : OrdMap Hash Int) : Outcome State := do
  forM writes.keys fun id => do
    let value ← load state id
    require (value.version + 1 < 2 ^ 64) .objectVersionOverflow
  writes.entries.foldlM (fun state write => do
    let value ← load state write.1
    pure (state.insert write.1 ⟨value.version + 1, write.2⟩)) state

/-! ## Speculation -/

/-- What one worker returns: the outcome of each of its transactions against the parent. -/
def workerRows (parent : State) (transactions : List Transaction) (workerCount : Nat)
    (schedule : FeeSchedule) (worker : Nat) : List (Nat × Outcome Speculated) :=
  (dealt workerCount transactions worker).map fun x => (x.2, executeTransaction parent x.1 schedule)

/-- The workers are joined in their own order, and the first failed row met ends the block. -/
def speculateParallel (parent : State) (transactions : List Transaction) (workerCount : Nat)
    (schedule : FeeSchedule) : Outcome (List Speculated) := do
  let rows := (List.range workerCount).flatMap (workerRows parent transactions workerCount schedule)
  let slots ← rows.foldlM (fun slots row => do
    let speculated ← row.2
    pure (slots.set row.1 (some speculated))) (List.replicate transactions.length none)
  slots.mapM fun row => row.elim (.error .missingWorkerResult) .ok

/-! ## Roots -/

def hashFrame (value : Bytes) : Bytes := Bytes.ofNatBE 8 value.length ++ value

/-- `i128::to_be_bytes`. -/
def signedBytes (value : Int) : Bytes := Bytes.ofNatBE 16 (value % 2 ^ 128).toNat

/-- The digest of a domain, a count and the frames of its rows. -/
def rootOf (sha256 : Bytes → Hash) (domain : String) (count : Nat) (frames : List Bytes) : Hash :=
  sha256 ((Bytes.ofString domain :: Bytes.ofNatBE 8 count :: frames).flatMap hashFrame)

def stateRoot (sha256 : Bytes → Hash) (state : State) : Hash :=
  rootOf sha256 "trnm.g2d.parallel.state-root.v1\x00" state.size <|
    state.entries.flatMap fun e =>
      [e.1.bytes, Bytes.ofNatBE 8 e.2.version, signedBytes e.2.value]

def writeSetRoot (sha256 : Bytes → Hash) (writes : OrdMap Hash Int) : Hash :=
  rootOf sha256 "trnm.g2d.parallel.write-set-root.v1\x00" writes.size <|
    writes.entries.flatMap fun e => [e.1.bytes, signedBytes e.2]

/-- `ParallelExecutionReceiptV1`; the two authority flags, always false, are left out. -/
structure Receipt where
  index : Nat
  transactionId : Hash
  payer : Hash
  status : ReceiptStatus
  retryCount : Nat
  usage : ResourceVector
  feeCharged : Nat
  writeSetRoot : Hash

def receiptRoot (sha256 : Bytes → Hash) (receipts : List Receipt) : Hash :=
  rootOf sha256 "trnm.g2d.parallel.receipt-root.v1\x00" receipts.length <|
    receipts.flatMap fun r =>
      [Bytes.ofNatBE 4 r.index, r.transactionId.bytes, r.payer.bytes, [r.status.tag],
        Bytes.ofNatBE 4 r.retryCount, Bytes.ofNatBE 8 r.usage.computeUnits,
        Bytes.ofNatBE 8 r.usage.stateReadUnits, Bytes.ofNatBE 8 r.usage.stateWriteUnits,
        Bytes.ofNatBE 8 r.usage.artifactUnits, Bytes.ofNatBE 16 r.feeCharged, r.writeSetRoot.bytes]

structure FeeDelta where
  payer : Hash
  payerDebit : Nat
  feeSinkCredit : Nat

def feeRoot (sha256 : Bytes → Hash) (deltas : List FeeDelta) : Hash :=
  rootOf sha256 "trnm.g2d.parallel.fee-root.v1\x00" deltas.length <|
    deltas.flatMap fun d =>
      [d.payer.bytes, Bytes.ofNatBE 16 d.payerDebit, Bytes.ofNatBE 16 d.feeSinkCredit]

/-! ## The commit loop -/

structure Progress where
  state : State
  receipts : List Receipt
  fees : OrdMap Hash Nat

/-- A declared read no longer has the version the result was computed from. -/
def conflicted (original : Speculated) : Bool :=
  original.readVersions.entries.any fun e => (state.get e.1).map VersionedValue.version ≠ some e.2

/-- Writes reach the state only when the transaction succeeded. -/
def publish (selected : Speculated) : Outcome State :=
  if selected.status = .success then applyWrites state selected.writes else pure state

def receiptOf (sha256 : Bytes → Hash) (selected : Speculated) (retryCount : Nat) : Receipt where
  index := selected.transaction.index
  transactionId := selected.transaction.transactionId
  payer := selected.transaction.payer
  status := selected.status
  retryCount := retryCount
  usage := selected.usage
  feeCharged := selected.feeCharged
  writeSetRoot := writeSetRoot sha256 selected.writes

def chargeFee (fees : OrdMap Hash Nat) (selected : Speculated) : Outcome (OrdMap Hash Nat) := do
  let payer := selected.transaction.payer
  let accumulated ← fits 128 ((fees.get payer).getD 0 + selected.feeCharged) .arithmeticOverflow
  pure (fees.insert payer accumulated)

/-- The result to commit, with the number of executions beyond the first. -/
def select (schedule : FeeSchedule) (state : State) (original : Speculated) :
    Outcome (Speculated × Nat) :=
  if conflicted state original then do
    let again ← executeTransaction state original.transaction schedule
    pure (again, 1)
  else pure (original, 0)

def commitOne (sha256 : Bytes → Hash) (schedule : FeeSchedule) (progress : Progress)
    (original : Speculated) : Outcome Progress := do
  let (selected, retryCount) ← select schedule progress.state original
  let state ← publish progress.state selected
  let fees ← chargeFee progress.fees selected
  pure ⟨state, progress.receipts ++ [receiptOf sha256 selected retryCount], fees⟩

/-- `ParallelBlockResultV1`; the three authority flags, always false, are left out. -/
structure BlockResult where
  state : State
  receipts : List Receipt
  feeDeltas : List FeeDelta
  stateRoot : Hash
  receiptRoot : Hash
  feeRoot : Hash
  workerCount : Nat

def feeDeltas (fees : OrdMap Hash Nat) : List FeeDelta := fees.entries.map fun e => ⟨e.1, e.2, e.2⟩

def finish (sha256 : Bytes → Hash) (workerCount : Nat) (progress : Progress) : BlockResult where
  state := progress.state
  receipts := progress.receipts
  feeDeltas := feeDeltas progress.fees
  stateRoot := stateRoot sha256 progress.state
  receiptRoot := receiptRoot sha256 progress.receipts
  feeRoot := feeRoot sha256 (feeDeltas progress.fees)
  workerCount := workerCount

def executeParallelBlock (sha256 : Bytes → Hash) (parent : State) (transactions : List Transaction)
    (workerCount : Nat) (schedule : FeeSchedule) : Outcome BlockResult := do
  validateBlock transactions workerCount
  let speculative ← speculateParallel parent transactions workerCount schedule
  let progress ← speculative.foldlM (commitOne sha256 schedule) ⟨parent, [], ∅⟩
  pure (finish sha256 workerCount progress)

/-! ## One after another -/

/-- Execute a transaction on the current state and publish its writes. -/
def stepSequential (schedule : FeeSchedule) (state : State) (transaction : Transaction) :
    Outcome (State × Speculated) := do
  let executed ← executeTransaction state transaction schedule
  let state ← publish state executed
  pure (state, executed)

/-- The transactions in index order on the evolving state. -/
def runSequential (schedule : FeeSchedule) (state : State) : List Transaction →
    Outcome (State × List Speculated)
  | [] => pure (state, [])
  | transaction :: rest => do
    let (state, executed) ← stepSequential schedule state transaction
    let (final, others) ← runSequential schedule state rest
    pure (final, executed :: others)

end Trillionnium.Parallel
