import Trillionnium.Lib.Reader
import Trillionnium.StateImport.Delta

/-!
# The migration handoff

The plan, the binding to a finalized source, the projection, and the record that carries a migration
from its verified source to the runtime, with its codec and the store that keeps it. A transition is
one transaction (`transact`) and a readback after it (`confirmTransition`).
-/

namespace Trillionnium.StateImport

open Lib Pon

/-! ## Sources, plans and projections -/

/-- Private fields: made only from a verified export. -/
structure FinalizedSourceBinding where
  sourceChainId : Hash
  sourceProtocolDigest : Hash
  sourceHeight : U64
  sourceStateRoot : Hash
  sourceSchemaDigest : Hash
  sourceFinalityProofDigest : Hash
  exportHeaderDigest : Hash
  exportRoot : Hash
  orderedRowsDigest : Hash
  rowCount : U64
  bindingDigest : Hash

structure MigrationPlan where
  sourceChainId : Hash
  sourceProtocolDigest : Hash
  sourceSchemaDigest : Hash
  sourceHeight : U64
  sourceExportHeaderDigest : Hash
  targetChainId : Hash
  targetProtocolDigest : Hash
  targetSchemaDigest : Hash
  targetGenesisId : Hash
  noFallback : Bool
  downgradeProhibited : Bool
  planDigest : Hash

structure MigrationProjection where
  planDigest : Hash
  sourceExportRoot : Hash
  sourceOrderedRowsDigest : Hash
  targetRowCount : U64
  targetRowsDigest : Hash
  targetStateRoot : Hash
  targetGenesisId : Hash
  rows : List TargetRow
  deriving DecidableEq

inductive MigrationProjectionError (P R : Type) where
  | protocol (error : MigrationError)
  | projector (error : P)
  | rootBuilder (error : R)
  deriving DecidableEq

def flagByte (b : Bool) : Bytes := [if b then 1 else 0]

section
variable (sha256 : Bytes → Hash)

def FinalizedSourceBinding.canonicalDigest (binding : FinalizedSourceBinding) : Hash :=
  sha256 (message "trnm.migration.finalized-source-binding.v0"
    [binding.sourceChainId.bytes, binding.sourceProtocolDigest.bytes,
      Bytes.be 8 binding.sourceHeight, binding.sourceStateRoot.bytes,
      binding.sourceSchemaDigest.bytes, binding.sourceFinalityProofDigest.bytes,
      binding.exportHeaderDigest.bytes, binding.exportRoot.bytes, binding.orderedRowsDigest.bytes,
      Bytes.be 8 binding.rowCount])

def FinalizedSourceBinding.fromVerifiedExport (export_ : VerifiedExport) : FinalizedSourceBinding :=
  let header := export_.header
  let binding : FinalizedSourceBinding :=
    ⟨header.sourceChainId, header.sourceProtocolDigest, header.sourceHeight, header.sourceStateRoot,
      header.sourceSchemaDigest, header.sourceFinalityProofDigest, header.headerDigest,
      header.exportRoot, export_.orderedRowsDigest, header.rowCount, .zero⟩
  { binding with bindingDigest := binding.canonicalDigest sha256 }

def MigrationPlan.canonicalDigest (plan : MigrationPlan) : Hash :=
  sha256 (message "trnm.migration.plan.v0"
    [plan.sourceChainId.bytes, plan.sourceProtocolDigest.bytes, plan.sourceSchemaDigest.bytes,
      Bytes.be 8 plan.sourceHeight, plan.sourceExportHeaderDigest.bytes, plan.targetChainId.bytes,
      plan.targetProtocolDigest.bytes, plan.targetSchemaDigest.bytes, plan.targetGenesisId.bytes,
      flagByte plan.noFallback, flagByte plan.downgradeProhibited])

def MigrationPlan.validate (plan : MigrationPlan) (export_ : VerifiedExport) :
    Except MigrationError Unit :=
  require (plan.noFallback ∧ plan.downgradeProhibited ∧ plan.sourceChainId ≠ .zero ∧
    plan.sourceProtocolDigest ≠ .zero ∧ plan.sourceSchemaDigest ≠ .zero ∧
    plan.sourceChainId = export_.header.sourceChainId ∧
    plan.sourceProtocolDigest = export_.header.sourceProtocolDigest ∧
    plan.sourceSchemaDigest = export_.header.sourceSchemaDigest ∧
    plan.sourceHeight = export_.header.sourceHeight ∧
    plan.sourceExportHeaderDigest = export_.header.headerDigest ∧ plan.targetChainId ≠ .zero ∧
    plan.targetChainId ≠ plan.sourceChainId ∧ plan.targetProtocolDigest ≠ .zero ∧
    plan.targetSchemaDigest ≠ .zero ∧ plan.targetGenesisId ≠ .zero ∧ plan.planDigest ≠ .zero ∧
    plan.planDigest = plan.canonicalDigest sha256) .invalidMigrationPlan

def MigrationProjection.canonicalDigest (projection : MigrationProjection) : Hash :=
  sha256 (message "trnm.migration.projection.v0"
    [projection.planDigest.bytes, projection.sourceExportRoot.bytes,
      projection.sourceOrderedRowsDigest.bytes, Bytes.be 8 projection.targetRowCount,
      projection.targetRowsDigest.bytes, projection.targetStateRoot.bytes,
      projection.targetGenesisId.bytes])

/-- The loop of `project_and_recompute_v0` over the source rows, with the keys seen so far. -/
def projectRows {P R : Type} (projector : ExportRow → Except P (Option TargetRow)) :
    List ExportRow → List TargetRow → Except (MigrationProjectionError P R) (List TargetRow)
  | [], rows => .ok rows
  | source :: sources, rows => do
    match ← (projector source).mapError .projector with
    | none => projectRows projector sources rows
    | some row =>
      row.validate.mapError .protocol
      require (row.rowKey ∉ rows.map TargetRow.rowKey) (.protocol .duplicateTargetKey)
      projectRows projector sources (rows ++ [row])

def projectAndRecompute {P R : Type} (projector : ExportRow → Except P (Option TargetRow))
    (rootBuilder : RootBuilder R) (plan : MigrationPlan) (export_ : VerifiedExport)
    (sourceRows : List ExportRow) : Except (MigrationProjectionError P R) MigrationProjection := do
  (plan.validate sha256 export_).mapError .protocol
  (validateVerifiedRows sha256 export_ sourceRows).mapError .protocol
  let rows ← projectRows projector sourceRows []
  -- the keys are distinct, so that the derived order of rows is the order of their keys
  let rows := rows.insertionSort (·.rowKey ≤ ·.rowKey)
  let targetStateRoot ← (rootBuilder plan.targetSchemaDigest rows).mapError .rootBuilder
  require (targetStateRoot ≠ .zero) (.protocol .invalidTargetRoot)
  pure ⟨plan.planDigest, export_.header.exportRoot, export_.orderedRowsDigest,
    BitVec.ofNat 64 rows.length, targetRowsDigest sha256 rows, targetStateRoot,
    plan.targetGenesisId, rows⟩

/-! ## Records -/

structure CutoverAgreement where
  planDigest : Hash
  targetStateRoot : Hash
  targetGenesisId : Hash
  signedWeight : U64
  requiredWeight : U64
  signerSetDigest : Hash
  agreementDigest : Hash
  deriving DecidableEq

inductive MigrationHandoffState where
  | verifiedSource
  | projectedDelta
  | durableInstall
  | readbackCas
  | cutoverAgreed
  | runtimeReady
  | fenced
  deriving DecidableEq

inductive MigrationReadinessModule where
  | m01
  | m02
  | m08
  deriving DecidableEq

structure MigrationReadinessReceipt where
  module : MigrationReadinessModule
  receiptDigest : Hash
  deriving DecidableEq

inductive MigrationHandoffError where
  | protocol (error : MigrationError)
  | sqlite
  | codec (text : String)
  deriving DecidableEq

/-- `DurableDeltaInstallReceiptV0`, as the record keeps it. -/
structure HandoffInstall where
  previousRoot : Hash
  installedRoot : Hash
  generation : U64
  deltaDigest : Hash
  deriving DecidableEq

/-- `DurableDeltaReadbackV0`, as the record keeps it. -/
structure HandoffReadback where
  planDigest : Hash
  targetSchemaDigest : Hash
  sourceContextDigest : Hash
  targetContextDigest : Hash
  rowsDigest : Hash
  stateRoot : Hash
  rowCount : U64
  generation : U64
  lastDeltaDigest : Hash
  deriving DecidableEq

structure MigrationHandoffRecord where
  state : MigrationHandoffState
  revision : U64
  planDigest : Hash
  targetSchemaDigest : Hash
  sourceBindingDigest : Hash
  sourceContextDigest : Hash
  sourceStateRoot : Hash
  targetContextDigest : Hash
  projectionDigest : Hash
  targetRowsDigest : Hash
  targetGenesisId : Hash
  targetStateRoot : Hash
  rollbackFloor : U64
  storeIdentityDigest : Option Hash
  install : Option HandoffInstall
  readback : Option HandoffReadback
  cutover : Option CutoverAgreement
  readiness : Option MigrationReadinessReceipt × Option MigrationReadinessReceipt ×
    Option MigrationReadinessReceipt
  fenceReasonDigest : Option Hash
  recordDigest : Hash
  deriving DecidableEq

/-! ## The codec -/

namespace MigrationHandoffState

def toU8 : MigrationHandoffState → UInt8
  | verifiedSource => 1
  | projectedDelta => 2
  | durableInstall => 3
  | readbackCas => 4
  | cutoverAgreed => 5
  | runtimeReady => 6
  | fenced => 255

def ofU8 (value : UInt8) : Except MigrationHandoffError MigrationHandoffState :=
  getOr ([verifiedSource, projectedDelta, durableInstall, readbackCas, cutoverAgreed, runtimeReady,
    fenced].find? (·.toU8 = value)) (.codec "unknown handoff state")

end MigrationHandoffState

namespace MigrationReadinessModule

def toU8 : MigrationReadinessModule → UInt8
  | m01 => 1
  | m02 => 2
  | m08 => 8

def ofU8 (value : UInt8) : Except MigrationHandoffError MigrationReadinessModule :=
  getOr ([m01, m02, m08].find? (·.toU8 = value)) (.codec "unknown readiness module")

end MigrationReadinessModule

/-- An optional value behind its presence marker. -/
def putOptional {α : Type} (put : α → Bytes) : Option α → Bytes
  | none => [0]
  | some a => 1 :: put a

def HandoffInstall.bytes (v : HandoffInstall) : Bytes :=
  [v.previousRoot.bytes, v.installedRoot.bytes, Bytes.be 8 v.generation,
    v.deltaDigest.bytes].flatten

def HandoffReadback.bytes (v : HandoffReadback) : Bytes :=
  [v.planDigest.bytes, v.targetSchemaDigest.bytes, v.sourceContextDigest.bytes,
    v.targetContextDigest.bytes, v.rowsDigest.bytes, v.stateRoot.bytes, Bytes.be 8 v.rowCount,
    Bytes.be 8 v.generation, v.lastDeltaDigest.bytes].flatten

def CutoverAgreement.bytes (v : CutoverAgreement) : Bytes :=
  [v.planDigest.bytes, v.targetStateRoot.bytes, v.targetGenesisId.bytes, Bytes.be 8 v.signedWeight,
    Bytes.be 8 v.requiredWeight, v.signerSetDigest.bytes, v.agreementDigest.bytes].flatten

def MigrationReadinessReceipt.bytes (v : MigrationReadinessReceipt) : Bytes :=
  [[v.module.toU8], v.receiptDigest.bytes].flatten

variable (r : MigrationHandoffRecord)

/-- The fields of a record one after another, without its digest. -/
def MigrationHandoffRecord.fields : List Bytes :=
  [Bytes.ofString "MHOF", Bytes.be 2 (1 : U16), [r.state.toU8], Bytes.be 8 r.revision,
    r.planDigest.bytes, r.targetSchemaDigest.bytes, r.sourceBindingDigest.bytes,
    r.sourceContextDigest.bytes, r.sourceStateRoot.bytes, r.targetContextDigest.bytes,
    r.projectionDigest.bytes, r.targetRowsDigest.bytes, r.targetGenesisId.bytes,
    r.targetStateRoot.bytes, Bytes.be 8 r.rollbackFloor,
    putOptional Hash.bytes r.storeIdentityDigest, putOptional HandoffInstall.bytes r.install,
    putOptional HandoffReadback.bytes r.readback, putOptional CutoverAgreement.bytes r.cutover,
    putOptional MigrationReadinessReceipt.bytes r.readiness.1,
    putOptional MigrationReadinessReceipt.bytes r.readiness.2.1,
    putOptional MigrationReadinessReceipt.bytes r.readiness.2.2,
    putOptional Hash.bytes r.fenceReasonDigest]

def MigrationHandoffRecord.canonicalBytes : Bytes := r.fields.flatten

def MigrationHandoffRecord.encode : Bytes :=
  r.canonicalBytes ++ r.recordDigest.bytes

def MigrationHandoffRecord.canonicalDigest : Hash :=
  sha256 (message "trnm.migration.handoff-record.v0" [r.canonicalBytes])

abbrev HandoffReader := Reader MigrationHandoffError

def truncatedRecord : MigrationHandoffError := .codec "truncated record"

def readU64 : HandoffReader U64 := Bytes.readBE 64 <$> Reader.take 8 truncatedRecord

def readDigest : HandoffReader Hash := do
  let bs ← Reader.take 32 truncatedRecord
  StateT.lift (getOr (Hash.ofBytes bs) truncatedRecord)

def readByte : HandoffReader UInt8 := (List.headD · 0) <$> Reader.take 1 truncatedRecord

def readOptional {α : Type} (p : HandoffReader α) (invalid : String) : HandoffReader (Option α) :=
  Reader.optional p truncatedRecord (.codec invalid)

def readInstall : HandoffReader HandoffInstall := do
  let previousRoot ← readDigest
  let installedRoot ← readDigest
  let generation ← readU64
  let deltaDigest ← readDigest
  pure ⟨previousRoot, installedRoot, generation, deltaDigest⟩

def readReadback : HandoffReader HandoffReadback := do
  let planDigest ← readDigest
  let targetSchemaDigest ← readDigest
  let sourceContextDigest ← readDigest
  let targetContextDigest ← readDigest
  let rowsDigest ← readDigest
  let stateRoot ← readDigest
  let rowCount ← readU64
  let generation ← readU64
  let lastDeltaDigest ← readDigest
  pure ⟨planDigest, targetSchemaDigest, sourceContextDigest, targetContextDigest, rowsDigest,
    stateRoot, rowCount, generation, lastDeltaDigest⟩

def readCutover : HandoffReader CutoverAgreement := do
  let planDigest ← readDigest
  let targetStateRoot ← readDigest
  let targetGenesisId ← readDigest
  let signedWeight ← readU64
  let requiredWeight ← readU64
  let signerSetDigest ← readDigest
  let agreementDigest ← readDigest
  pure ⟨planDigest, targetStateRoot, targetGenesisId, signedWeight, requiredWeight, signerSetDigest,
    agreementDigest⟩

def readReceipt : HandoffReader MigrationReadinessReceipt := do
  let value ← readByte
  let module_ ← StateT.lift (MigrationReadinessModule.ofU8 value)
  let receiptDigest ← readDigest
  pure ⟨module_, receiptDigest⟩

/-- One part of the header. -/
def readHeader (expected : Bytes) : HandoffReader Unit := do
  let bs ← Reader.take expected.length truncatedRecord
  StateT.lift (require (bs = expected) (.codec "invalid record header"))

def readRecord : HandoffReader MigrationHandoffRecord := do
  readHeader (Bytes.ofString "MHOF")
  readHeader (Bytes.be 2 (1 : U16))
  let value ← readByte
  let state ← StateT.lift (MigrationHandoffState.ofU8 value)
  let revision ← readU64
  let planDigest ← readDigest
  let targetSchemaDigest ← readDigest
  let sourceBindingDigest ← readDigest
  let sourceContextDigest ← readDigest
  let sourceStateRoot ← readDigest
  let targetContextDigest ← readDigest
  let projectionDigest ← readDigest
  let targetRowsDigest ← readDigest
  let targetGenesisId ← readDigest
  let targetStateRoot ← readDigest
  let rollbackFloor ← readU64
  let storeIdentityDigest ← readOptional readDigest "invalid optional flag"
  let install ← readOptional readInstall "invalid install flag"
  let readback ← readOptional readReadback "invalid readback flag"
  let cutover ← readOptional readCutover "invalid cutover flag"
  let first ← readOptional readReceipt "invalid readiness flag"
  let second ← readOptional readReceipt "invalid readiness flag"
  let third ← readOptional readReceipt "invalid readiness flag"
  let fenceReasonDigest ← readOptional readDigest "invalid optional flag"
  let recordDigest ← readDigest
  pure ⟨state, revision, planDigest, targetSchemaDigest, sourceBindingDigest, sourceContextDigest,
    sourceStateRoot, targetContextDigest, projectionDigest, targetRowsDigest, targetGenesisId,
    targetStateRoot, rollbackFloor, storeIdentityDigest, install, readback, cutover,
    (first, second, third), fenceReasonDigest, recordDigest⟩

namespace MigrationHandoffRecord

def installed : Prop :=
  r.storeIdentityDigest ≠ none ∧ r.install ≠ none ∧ r.readback ≠ none

instance {r : MigrationHandoffRecord} : Decidable r.installed := inferInstanceAs (Decidable (_ ∧ _))

/-- The receipts that are there, in their order. -/
def receipts : List MigrationReadinessReceipt :=
  r.readiness.1.toList ++ r.readiness.2.1.toList ++ r.readiness.2.2.toList

def invalidRecord : MigrationHandoffError := .protocol .invalidHandoffRecord

def validate : Except MigrationHandoffError Unit := do
  require (r.recordDigest ≠ .zero ∧ r.recordDigest = r.canonicalDigest sha256 ∧
    r.planDigest ≠ .zero ∧
    r.targetSchemaDigest ≠ .zero ∧ r.sourceBindingDigest ≠ .zero ∧ r.sourceContextDigest ≠ .zero ∧
    r.sourceStateRoot ≠ .zero ∧ r.targetGenesisId ≠ .zero) invalidRecord
  if r.state = .fenced then
    require (r.fenceReasonDigest ≠ none ∧ r.fenceReasonDigest ≠ some .zero) invalidRecord
  else
    require (r.fenceReasonDigest = none) invalidRecord
    require (r.state = .verifiedSource → r.projectionDigest = .zero ∧
      r.targetContextDigest = .zero ∧
      r.targetStateRoot = .zero ∧ r.targetRowsDigest = .zero ∧ r.storeIdentityDigest = none ∧
      r.install = none ∧ r.readback = none ∧ r.cutover = none) invalidRecord
    require (MigrationHandoffState.projectedDelta.toU8 ≤ r.state.toU8 → r.projectionDigest ≠ .zero ∧
      r.targetContextDigest ≠ .zero ∧ r.targetStateRoot ≠ .zero ∧ r.targetRowsDigest ≠ .zero)
      invalidRecord
    require (r.state ∈ [.durableInstall, .readbackCas, .cutoverAgreed, .runtimeReady] → r.installed)
      invalidRecord
    require (r.state ∈ [.cutoverAgreed, .runtimeReady] → r.cutover ≠ none) invalidRecord
    require (r.state = .runtimeReady → r.readiness.1 ≠ none ∧ r.readiness.2.1 ≠ none ∧
      r.readiness.2.2 ≠ none) (.protocol .invalidReadinessReceipt)
    r.receipts.forM fun v => require (v.receiptDigest ≠ .zero) (.protocol .invalidReadinessReceipt)

end MigrationHandoffRecord

def decodeHandoffRecord (bytes : Bytes) : Except MigrationHandoffError MigrationHandoffRecord := do
  let (record, rest) ← readRecord bytes
  require (rest = []) (.codec "trailing record bytes")
  record.validate sha256
  pure record

/-! ## Transitions -/

namespace MigrationHandoffRecord

def newVerifiedSource (plan : MigrationPlan) (sourceBinding : FinalizedSourceBinding)
    (sourceContext : VerifiedSourceCheckpointContext) (rollbackFloor : U64) :
    Except MigrationHandoffError MigrationHandoffRecord := do
  require (plan.planDigest ≠ .zero ∧ plan.planDigest = plan.canonicalDigest sha256 ∧
    plan.targetSchemaDigest ≠ .zero ∧ rollbackFloor ≠ 0 ∧ rollbackFloor ≤ plan.sourceHeight ∧
    sourceBinding.bindingDigest ≠ .zero) invalidRecord
  let context := sourceContext.context
  require (context.chainId = sourceBinding.sourceChainId ∧
    context.protocolDigest = sourceBinding.sourceProtocolDigest ∧
    context.height = sourceBinding.sourceHeight ∧ context.stateRoot = sourceBinding.sourceStateRoot)
    (.protocol .sourceCheckpointContextMismatch)
  let record : MigrationHandoffRecord :=
    { state := .verifiedSource
      revision := 0
      planDigest := plan.planDigest
      targetSchemaDigest := plan.targetSchemaDigest
      sourceBindingDigest := sourceBinding.bindingDigest
      sourceContextDigest := context.canonicalDigest sha256
      sourceStateRoot := context.stateRoot
      targetContextDigest := .zero
      projectionDigest := .zero
      targetRowsDigest := .zero
      targetGenesisId := plan.targetGenesisId
      targetStateRoot := .zero
      rollbackFloor := rollbackFloor
      storeIdentityDigest := none
      install := none
      readback := none
      cutover := none
      readiness := (none, none, none)
      fenceReasonDigest := none
      recordDigest := .zero }
  pure { record with recordDigest := record.canonicalDigest sha256 }

/-- A record with the digest of its fields. -/
def sealed : MigrationHandoffRecord :=
  { r with recordDigest := r.canonicalDigest sha256 }

def projectedDelta (projection : MigrationProjection)
    (source target : VerifiedSourceCheckpointContext) :
    Except MigrationHandoffError MigrationHandoffRecord := do
  require (r.state = .verifiedSource ∧ projection.planDigest = r.planDigest ∧
    projection.targetGenesisId = r.targetGenesisId ∧ projection.targetStateRoot ≠ .zero ∧
    source.context.canonicalDigest sha256 = r.sourceContextDigest)
      (.protocol .invalidHandoffTransition)
  require (projection.targetRowCount.toNat = projection.rows.length ∧
    validateTargetRows projection.rows = .ok () ∧
    StateImport.targetRowsDigest sha256 projection.rows = projection.targetRowsDigest)
    (.protocol .verifiedExportMismatch)
  require (source.context.ValidProgression target.context ∧
    target.context.stateRoot = projection.targetStateRoot)
      (.protocol .sourceCheckpointContextMismatch)
  pure (sealed sha256 { r with
    state := .projectedDelta
    targetContextDigest := target.context.canonicalDigest sha256
    projectionDigest := projection.canonicalDigest sha256
    targetRowsDigest := projection.targetRowsDigest
    targetStateRoot := projection.targetStateRoot })

def durableInstall (identity : Hash) (receipt : HandoffInstall)
    (readback : HandoffReadback) : Except MigrationHandoffError MigrationHandoffRecord := do
  require (r.state = .projectedDelta ∧ identity ≠ .zero ∧ receipt.previousRoot ≠ .zero ∧
    receipt.previousRoot = r.sourceStateRoot ∧ receipt.installedRoot = r.targetStateRoot ∧
    receipt.generation ≠ 0 ∧ receipt.deltaDigest ≠ .zero ∧ readback.planDigest = r.planDigest ∧
    readback.targetSchemaDigest = r.targetSchemaDigest ∧
    readback.sourceContextDigest = r.sourceContextDigest ∧
    readback.targetContextDigest = r.targetContextDigest ∧ readback.stateRoot = r.targetStateRoot ∧
    readback.rowsDigest = r.targetRowsDigest ∧ readback.rowsDigest ≠ .zero ∧
    readback.generation = receipt.generation ∧ readback.lastDeltaDigest = receipt.deltaDigest)
    (.protocol .durableReadbackMismatch)
  pure (sealed sha256 { r with
    state := .durableInstall
    storeIdentityDigest := some identity
    install := some receipt
    readback := some readback })

def readbackCas (readback : HandoffReadback) :
    Except MigrationHandoffError MigrationHandoffRecord := do
  require (r.state = .durableInstall ∧ r.readback = some readback)
    (.protocol .durableReadbackMismatch)
  pure (sealed sha256 { r with state := .readbackCas })

/-- The digest that the signers agreed under. -/
def agreementDigest (agreement : CutoverAgreement) : Hash :=
  sha256 (message "trnm.migration.cutover-agreement.v0"
    [agreement.planDigest.bytes, agreement.targetStateRoot.bytes, agreement.targetGenesisId.bytes,
      Bytes.be 8 agreement.signedWeight, Bytes.be 8 agreement.requiredWeight,
      agreement.signerSetDigest.bytes])

def cutoverAgreed (agreement : CutoverAgreement) :
    Except MigrationHandoffError MigrationHandoffRecord := do
  require (r.state = .readbackCas ∧ agreement.planDigest = r.planDigest ∧
    agreement.targetStateRoot = r.targetStateRoot ∧ agreement.targetGenesisId = r.targetGenesisId ∧
    agreement.requiredWeight ≠ 0 ∧ agreement.requiredWeight ≤ agreement.signedWeight ∧
    agreement.agreementDigest ≠ .zero ∧
    agreement.agreementDigest = agreementDigest sha256 agreement)
    (.protocol .invalidCutoverAgreement)
  pure (sealed sha256 { r with
    state := .cutoverAgreed
    cutover := some agreement })

/-- A receipt in the slot of its module. -/
def checkReceipt (v : MigrationReadinessReceipt) (expected : MigrationReadinessModule) :
    Except MigrationHandoffError Unit := do
  require (v.receiptDigest ≠ .zero) (.protocol .invalidReadinessReceipt)
  require (v.module = expected) (.protocol .invalidReadinessReceipt)

def runtimeReady
    (readiness : MigrationReadinessReceipt × MigrationReadinessReceipt ×
      MigrationReadinessReceipt) :
    Except MigrationHandoffError MigrationHandoffRecord := do
  require (r.state = .cutoverAgreed) (.protocol .invalidHandoffTransition)
  checkReceipt readiness.1 .m01
  checkReceipt readiness.2.1 .m02
  checkReceipt readiness.2.2 .m08
  pure (sealed sha256 { r with
    state := .runtimeReady
    readiness := (some readiness.1, some readiness.2.1, some readiness.2.2) })

/-- Whatever the state. -/
def fenced (reason : Hash) :
    Except MigrationHandoffError MigrationHandoffRecord := do
  require (reason ≠ .zero) invalidRecord
  pure (sealed sha256 { r with
    state := .fenced
    fenceReasonDigest := some reason })

end MigrationHandoffRecord

/-! ## The store -/

inductive HandoffCall where
  | projectedDelta (projection : MigrationProjection)
    (source target : VerifiedSourceCheckpointContext)
  | durableInstall (identity : Hash) (receipt : HandoffInstall) (readback : HandoffReadback)
  | readbackCas (readback : HandoffReadback)
  | cutoverAgreed (agreement : CutoverAgreement)
  | runtimeReady (readiness : MigrationReadinessReceipt × MigrationReadinessReceipt ×
      MigrationReadinessReceipt)
  | fence (reason : Hash)
  deriving DecidableEq

def MigrationHandoffRecord.apply :
    HandoffCall → Except MigrationHandoffError MigrationHandoffRecord
  | .projectedDelta projection source target => r.projectedDelta sha256 projection source target
  | .durableInstall identity receipt readback => r.durableInstall sha256 identity receipt readback
  | .readbackCas readback => r.readbackCas sha256 readback
  | .cutoverAgreed agreement => r.cutoverAgreed sha256 agreement
  | .runtimeReady readiness => r.runtimeReady sha256 readiness
  | .fence reason => r.fenced sha256 reason

/-- The one row of `migration_handoff_record_v0`. -/
structure HandoffRow where
  revision : Nat
  recordDigest : Hash
  record : Bytes
  deriving DecidableEq

def rowOf : HandoffRow := ⟨r.revision.toNat, r.recordDigest, r.encode⟩

def readbackHandoff (row : HandoffRow) : Except MigrationHandoffError MigrationHandoffRecord := do
  let r ← decodeHandoffRecord sha256 row.record
  require (r.revision.toNat = row.revision ∧ r.recordDigest = row.recordDigest)
    (.protocol .durableReadbackMismatch)
  pure r

def i64Limit : Nat := 2 ^ 63

/-- The transaction of a transition. It holds the write lock from its first read, so that its
`UPDATE` finds the row that it read; the table refuses a revision beyond the integers of SQLite. -/
def transact (call : HandoffCall) (row : HandoffRow) :
    Except MigrationHandoffError (MigrationHandoffRecord × HandoffRow) := do
  let current ← readbackHandoff sha256 row
  let next ← current.apply sha256 call
  let next := MigrationHandoffRecord.sealed sha256
    { next with revision := BitVec.ofNat 64 (row.revision + 1) }
  next.validate sha256
  require (row.revision + 1 < i64Limit) .sqlite
  pure (next, rowOf next)

/-- The readback after the commit. -/
def confirmTransition (row : HandoffRow) (next : MigrationHandoffRecord) :
    Except MigrationHandoffError MigrationHandoffRecord := do
  let readback ← readbackHandoff sha256 row
  require (readback = next) (.protocol .durableReadbackMismatch)
  pure readback

/-- A new store at a path that did not exist. -/
def initializeHandoff (record : MigrationHandoffRecord) :
    Except MigrationHandoffError HandoffRow := do
  record.validate sha256
  let readback ← readbackHandoff sha256 (rowOf record)
  require (readback.recordDigest = record.recordDigest) (.protocol .durableReadbackMismatch)
  pure (rowOf record)

end

end Trillionnium.StateImport
