import Trillionnium.StateImport.Rows

/-!
# Incremental deltas

The rows of the target state, the checkpoint contexts between which a delta leads, and the delta
itself: `derive_incremental_delta_v0` finds it and `apply_incremental_delta_v0` writes it. The
host's root builder is a parameter.
-/

namespace Trillionnium.StateImport

open Lib Pon

/-! ## Target rows -/

structure TargetRow where
  space : Bytes
  key : Bytes
  value : Bytes
  deriving DecidableEq

namespace TargetRow

def rowKey (row : TargetRow) : RowKey := toLex (row.space, row.key)

def validate (row : TargetRow) : Except MigrationError Unit :=
  require (Bounded row.space row.key row.value ∧ ¬ forbiddenAuthorityNamespace row.space)
    .invalidTargetRow

theorem eq_of_rowKey {a b : TargetRow} (hkey : a.rowKey = b.rowKey) (hvalue : a.value = b.value) :
    a = b := by
  obtain ⟨space, key, value⟩ := a
  obtain ⟨space', key', value'⟩ := b
  simp only [rowKey, EmbeddingLike.apply_eq_iff_eq, Prod.mk.injEq] at hkey
  rw [hkey.1, hkey.2, show value = value' from hvalue]

end TargetRow

def valueAt (k : RowKey) (rows : List TargetRow) : Option Bytes :=
  (Rows.find TargetRow.rowKey k rows).map TargetRow.value

def validateTargetRows (rows : List TargetRow) : Except MigrationError Unit := do
  require (rows.length ≤ maxExportRows) .targetRowsOutOfBounds
  Rows.checkOrdered TargetRow.validate TargetRow.rowKey .rowsNotStrictlyOrdered none rows

theorem validateTargetRows_eq_ok : validateTargetRows rows = .ok () ↔
    rows.length ≤ maxExportRows ∧ (∀ row ∈ rows, row.validate = .ok ()) ∧
      Rows.Sorted TargetRow.rowKey rows := by
  simp [validateTargetRows, Rows.checkOrdered_eq_ok]

section
variable (sha256 : Bytes → Hash)

/-- The running hash over the rows. -/
def targetRowsMessage (rows : List TargetRow) : Bytes :=
  Bytes.ofString "trnm.migration.target-rows.v0" ++ rows.flatMap fun row =>
    (ExportRow.canonicalDigest sha256 row.space row.key row.value).bytes

def targetRowsDigest (rows : List TargetRow) : Hash := sha256 (targetRowsMessage sha256 rows)

/-! ## Checkpoint contexts -/

structure SourceCheckpointContext where
  chainId : Hash
  protocolDigest : Hash
  checkpointDigest : Hash
  blockId : Hash
  height : U64
  epoch : U64
  stateRoot : Hash
  validatorSetDigest : Hash
  finalityProofDigest : Hash
  deriving DecidableEq

namespace SourceCheckpointContext

def message (context : SourceCheckpointContext) : Bytes :=
  StateImport.message "trnm.migration.source-checkpoint-context.v0"
    [context.chainId.bytes, context.protocolDigest.bytes, context.checkpointDigest.bytes,
      context.blockId.bytes, Bytes.be 8 context.height, Bytes.be 8 context.epoch,
      context.stateRoot.bytes, context.validatorSetDigest.bytes, context.finalityProofDigest.bytes]

def canonicalDigest (context : SourceCheckpointContext) : Hash := sha256 context.message

def validate (context : SourceCheckpointContext) : Except MigrationError Unit :=
  require (context.chainId ≠ .zero ∧ context.protocolDigest ≠ .zero ∧
    context.checkpointDigest ≠ .zero ∧ context.blockId ≠ .zero ∧ context.height ≠ 0 ∧
    context.stateRoot ≠ .zero ∧ context.validatorSetDigest ≠ .zero ∧
    context.finalityProofDigest ≠ .zero ∧ context.canonicalDigest sha256 ≠ .zero)
    .invalidSourceCheckpointContext

theorem message_inj {c d : SourceCheckpointContext} (h : c.message = d.message) : c = d := by
  have hparts := StateImport.message_inj (by simp [Hash.size_eq]) (by simp [Hash.size_eq]) h
  simp only [List.cons.injEq, and_true] at hparts
  obtain ⟨h₁, h₂, h₃, h₄, h₅, h₆, h₇, h₈, h₉⟩ := hparts
  obtain ⟨_, _, _, _, _, _, _, _, _⟩ := c
  obtain ⟨_, _, _, _, _, _, _, _, _⟩ := d
  simp only [mk.injEq]
  exact ⟨Hash.ext_bytes h₁, Hash.ext_bytes h₂, Hash.ext_bytes h₃, Hash.ext_bytes h₄,
    Bytes.be_inj rfl h₅, Bytes.be_inj rfl h₆, Hash.ext_bytes h₇, Hash.ext_bytes h₈,
    Hash.ext_bytes h₉⟩

/-- One checkpoint after another of the same chain, at most an epoch further. -/
def ValidProgression (source target : SourceCheckpointContext) : Prop :=
  source.chainId = target.chainId ∧ source.protocolDigest = target.protocolDigest ∧
    source.height < target.height ∧ source.epoch ≤ target.epoch ∧
    target.epoch ≤ saturatingAdd source.epoch 1

instance {source target : SourceCheckpointContext} : Decidable (ValidProgression source target) :=
  inferInstanceAs (Decidable (_ ∧ _))

end SourceCheckpointContext

/-- Issued only by `verifySourceCheckpointContext`. -/
structure VerifiedSourceCheckpointContext where
  context : SourceCheckpointContext
  verificationDigest : Hash
  deriving DecidableEq

def verifySourceCheckpointContext {A : Type} (verifier : SourceCheckpointContext → Except A Unit)
    (context : SourceCheckpointContext) :
    Except (MigrationHostError A) VerifiedSourceCheckpointContext := do
  hosted (context.validate sha256)
  (verifier context).mapError .sourceCheckpointContext
  pure ⟨context, sha256 (message "trnm.migration.verified-source-checkpoint-context.v0"
    [(context.canonicalDigest sha256).bytes])⟩

/-! ## Deltas -/

/-- One mutation: a value to be set, or a deletion. -/
structure TargetDeltaRow where
  space : Bytes
  key : Bytes
  value : Option Bytes
  operationDigest : Hash
  deriving DecidableEq

namespace TargetDeltaRow

def rowKey (entry : TargetDeltaRow) : RowKey := toLex (entry.space, entry.key)

def message (space key : Bytes) (value : Option Bytes) : Bytes :=
  StateImport.message "trnm.migration.incremental-delta-row.v0"
    [space, key, [if value.isSome then 1 else 0], value.getD []]

def canonicalDigest (space key : Bytes) (value : Option Bytes) : Hash :=
  sha256 (message space key value)

def validate (entry : TargetDeltaRow) : Except MigrationError Unit :=
  require (Bounded entry.space entry.key (entry.value.getD []) ∧
    ¬ forbiddenAuthorityNamespace entry.space ∧
    entry.operationDigest = canonicalDigest sha256 entry.space entry.key entry.value)
    .invalidDeltaRow

def remove (row : TargetRow) : TargetDeltaRow :=
  ⟨row.space, row.key, none, canonicalDigest sha256 row.space row.key none⟩

def set (row : TargetRow) : TargetDeltaRow :=
  ⟨row.space, row.key, some row.value, canonicalDigest sha256 row.space row.key (some row.value)⟩

def put (entry : TargetDeltaRow) : Option TargetRow :=
  entry.value.map fun value => ⟨entry.space, entry.key, value⟩

end TargetDeltaRow

def incrementalDeltaRoot (digests : List Hash) : Hash :=
  rootOver sha256 "trnm.migration.empty-delta-root.v0" "trnm.migration.incremental-delta-node.v0"
    digests

structure IncrementalStateDelta where
  planDigest : Hash
  targetSchemaDigest : Hash
  sourceContext : SourceCheckpointContext
  targetContext : SourceCheckpointContext
  baseRowsDigest : Hash
  baseStateRoot : Hash
  targetRowsDigest : Hash
  targetStateRoot : Hash
  baseRowCount : U64
  targetRowCount : U64
  deltaRoot : Hash
  deltaDigest : Hash
  entries : List TargetDeltaRow
  deriving DecidableEq

namespace IncrementalStateDelta

def message (delta : IncrementalStateDelta) : Bytes :=
  StateImport.message "trnm.migration.incremental-delta.v0"
    [delta.planDigest.bytes, delta.targetSchemaDigest.bytes,
      (delta.sourceContext.canonicalDigest sha256).bytes,
      (delta.targetContext.canonicalDigest sha256).bytes, delta.baseRowsDigest.bytes,
      delta.baseStateRoot.bytes, delta.targetRowsDigest.bytes, delta.targetStateRoot.bytes,
      Bytes.be 8 delta.baseRowCount, Bytes.be 8 delta.targetRowCount, delta.deltaRoot.bytes,
      Bytes.be 8 (BitVec.ofNat 64 delta.entries.length)]

def canonicalDigest (delta : IncrementalStateDelta) : Hash := sha256 (delta.message sha256)

def validate (delta : IncrementalStateDelta) : Except MigrationError Unit := do
  delta.sourceContext.validate sha256
  delta.targetContext.validate sha256
  require (delta.planDigest ≠ .zero ∧ delta.targetSchemaDigest ≠ .zero ∧
    delta.baseRowsDigest ≠ .zero ∧ delta.baseStateRoot ≠ .zero ∧ delta.targetRowsDigest ≠ .zero ∧
    delta.targetStateRoot ≠ .zero ∧ delta.deltaRoot ≠ .zero ∧
    delta.entries.length ≤ maxIncrementalDeltaRows ∧ delta.baseRowCount.toNat ≤ maxExportRows ∧
    delta.targetRowCount.toNat ≤ maxExportRows ∧ delta.deltaDigest = delta.canonicalDigest sha256 ∧
    delta.sourceContext.ValidProgression delta.targetContext ∧
    delta.sourceContext.stateRoot = delta.baseStateRoot ∧
    delta.targetContext.stateRoot = delta.targetStateRoot) .invalidIncrementalDelta
  Rows.checkOrdered (TargetDeltaRow.validate sha256) TargetDeltaRow.rowKey .rowsNotStrictlyOrdered
    none delta.entries
  require (incrementalDeltaRoot sha256 (delta.entries.map TargetDeltaRow.operationDigest) =
    delta.deltaRoot) .deltaRootMismatch

/-- What a delta that passes its check satisfies. -/
structure Valid (delta : IncrementalStateDelta) : Prop where
  sourceContext : delta.sourceContext.validate sha256 = .ok ()
  targetContext : delta.targetContext.validate sha256 = .ok ()
  nonzero : delta.targetRowsDigest ≠ .zero ∧ delta.targetStateRoot ≠ .zero
  bounded : delta.entries.length ≤ maxIncrementalDeltaRows
  digest : delta.deltaDigest = delta.canonicalDigest sha256
  progression : delta.sourceContext.ValidProgression delta.targetContext
  targetRoot : delta.targetContext.stateRoot = delta.targetStateRoot
  entries : ∀ entry ∈ delta.entries, entry.validate sha256 = .ok ()
  sorted : Rows.Sorted TargetDeltaRow.rowKey delta.entries
  root : incrementalDeltaRoot sha256 (delta.entries.map TargetDeltaRow.operationDigest) =
    delta.deltaRoot

variable {sha256} in
theorem valid_of_validate {delta : IncrementalStateDelta} (h : delta.validate sha256 = .ok ()) :
    delta.Valid sha256 := by
  simp only [validate, bind_eq_ok, require_eq_ok, Rows.checkOrdered_eq_ok] at h
  obtain ⟨⟨⟩, hsource, ⟨⟩, htarget, -, ⟨-, -, -, -, hrows, hstate, -, hbounded, -, -, hdigest,
    hprogression, -, htargetRoot⟩, -, ⟨hentries, -, hsorted⟩, hroot⟩ := h
  exact ⟨hsource, htarget, ⟨hrows, hstate⟩, hbounded, hdigest, hprogression, htargetRoot,
    hentries, hsorted, hroot⟩

end IncrementalStateDelta

inductive IncrementalDeltaError (R : Type) where
  | protocol (error : MigrationError)
  | rootBuilder (error : R)
  deriving DecidableEq

/-- The host's canonical root of rows under a schema. -/
abbrev RootBuilder (R : Type) := Hash → List TargetRow → Except R Hash

/-- The merge of both row lists in `derive_incremental_delta_v0`: in each round the entry, if any,
at the smaller of the two next keys. There are at most as many rounds as rows. -/
def deriveEntries (baseRows targetRows : List TargetRow) : List TargetDeltaRow :=
  Rows.diff TargetRow.rowKey (TargetDeltaRow.remove sha256) (TargetDeltaRow.set sha256)
    (baseRows.length + targetRows.length) baseRows targetRows

/-- The merge in `apply_incremental_delta_v0`: base rows before an entry are kept, the one at its
key is dropped, and the value of the entry is written. -/
def applyEntries (entries : List TargetDeltaRow) (baseRows : List TargetRow) : List TargetRow :=
  Rows.edit TargetRow.rowKey TargetDeltaRow.rowKey TargetDeltaRow.put entries baseRows

variable {R : Type} (rootBuilder : RootBuilder R)

def deriveIncrementalDelta (planDigest targetSchemaDigest : Hash)
    (sourceContext targetContext : SourceCheckpointContext) (baseRows targetRows : List TargetRow) :
    Except (IncrementalDeltaError R) IncrementalStateDelta := do
  require (planDigest ≠ .zero ∧ targetSchemaDigest ≠ .zero) (.protocol .invalidIncrementalDelta)
  (sourceContext.validate sha256).mapError .protocol
  (targetContext.validate sha256).mapError .protocol
  (validateTargetRows baseRows).mapError .protocol
  (validateTargetRows targetRows).mapError .protocol
  let baseStateRoot ← (rootBuilder targetSchemaDigest baseRows).mapError .rootBuilder
  let targetStateRoot ← (rootBuilder targetSchemaDigest targetRows).mapError .rootBuilder
  require (baseStateRoot ≠ .zero ∧ targetStateRoot ≠ .zero) (.protocol .invalidTargetRoot)
  require (sourceContext.ValidProgression targetContext ∧ sourceContext.stateRoot = baseStateRoot ∧
    targetContext.stateRoot = targetStateRoot) (.protocol .sourceCheckpointContextMismatch)
  let entries := deriveEntries sha256 baseRows targetRows
  -- the merge stops at the entry beyond the bound
  require (entries.length ≤ maxIncrementalDeltaRows) (.protocol .deltaRowsOutOfBounds)
  let delta : IncrementalStateDelta :=
    { planDigest := planDigest
      targetSchemaDigest := targetSchemaDigest
      sourceContext := sourceContext
      targetContext := targetContext
      baseRowsDigest := targetRowsDigest sha256 baseRows
      baseStateRoot := baseStateRoot
      targetRowsDigest := targetRowsDigest sha256 targetRows
      targetStateRoot := targetStateRoot
      baseRowCount := BitVec.ofNat 64 baseRows.length
      targetRowCount := BitVec.ofNat 64 targetRows.length
      deltaRoot := incrementalDeltaRoot sha256 (entries.map TargetDeltaRow.operationDigest)
      deltaDigest := .zero
      entries := entries }
  pure { delta with deltaDigest := delta.canonicalDigest sha256 }

/-- The rows have the recorded count, digest and root. -/
def checkState (targetSchemaDigest : Hash) (rows : List TargetRow) (rowCount : U64)
    (rowsDigest stateRoot : Hash) (mismatch : MigrationError) :
    Except (IncrementalDeltaError R) Unit := do
  require (rows.length = rowCount.toNat ∧ targetRowsDigest sha256 rows = rowsDigest)
    (.protocol mismatch)
  let recomputed ← (rootBuilder targetSchemaDigest rows).mapError .rootBuilder
  require (recomputed = stateRoot) (.protocol mismatch)

def applyIncrementalDelta (delta : IncrementalStateDelta)
    (sourceContext targetContext : SourceCheckpointContext) (baseRows : List TargetRow) :
    Except (IncrementalDeltaError R) (List TargetRow) := do
  (delta.validate sha256).mapError .protocol
  require (delta.sourceContext = sourceContext ∧ delta.targetContext = targetContext)
    (.protocol .sourceCheckpointContextMismatch)
  (validateTargetRows baseRows).mapError .protocol
  checkState sha256 rootBuilder delta.targetSchemaDigest baseRows delta.baseRowCount
    delta.baseRowsDigest delta.baseStateRoot .baseStateMismatch
  let output := applyEntries delta.entries baseRows
  (validateTargetRows output).mapError .protocol
  checkState sha256 rootBuilder delta.targetSchemaDigest output delta.targetRowCount
    delta.targetRowsDigest delta.targetStateRoot .targetStateMismatch
  pure output

end

end Trillionnium.StateImport
