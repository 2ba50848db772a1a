import Trillionnium.StateImport.Inverse

/-!
# The durable store of the incremental state

`SqliteIncrementalStateStoreV0`: one row of metadata and the table of target rows. A call of
`apply_delta_v0` has three parts between which other calls may run: it reads the store and prepares
the change (`prepare`), writes it in one transaction (`install`), and reads the store back
(`confirm`).
-/

namespace Trillionnium.StateImport

open Lib Pon

def i64Max : Nat := 2 ^ 63 - 1

inductive DurableDeltaStoreError (R : Type) where
  | protocol (error : MigrationError)
  | rootBuilder (error : R)
  | sqlite
  deriving DecidableEq

/-- The row of metadata, and what a readback reports of it. -/
structure DurableDeltaReadback where
  planDigest : Hash
  targetSchemaDigest : Hash
  sourceContextDigest : Hash
  targetContextDigest : Hash
  rowsDigest : Hash
  stateRoot : Hash
  rowCount : Nat
  generation : Nat
  lastDeltaDigest : Hash
  deriving DecidableEq

structure DurableDeltaInstallReceipt where
  previousRoot : Hash
  installedRoot : Hash
  generation : Nat
  deltaDigest : Hash

/-- The database: the metadata, and the table of rows under its primary key. -/
structure DeltaDatabase where
  metadata : DurableDeltaReadback
  table : OrdMap RowKey Bytes
  deriving DecidableEq

/-- `SELECT … ORDER BY namespace,key` -/
def tableRows (table : OrdMap RowKey Bytes) : List TargetRow :=
  table.entries.map fun e => ⟨(ofLex e.1).1, (ofLex e.1).2, e.2⟩

/-- One `INSERT` for each row. -/
def tableOf (rows : List TargetRow) : OrdMap RowKey Bytes :=
  .ofList (rows.map fun row => (row.rowKey, row.value))

/-- The `INSERT … ON CONFLICT DO UPDATE` or `DELETE` of an entry. -/
def mutate (table : OrdMap RowKey Bytes) (entry : TargetDeltaRow) : OrdMap RowKey Bytes :=
  match entry.value with
  | some value => table.insert entry.rowKey value
  | none => table.erase entry.rowKey

/-- What a handle on the store remembers beside its path. -/
structure SqliteIncrementalStateStore where
  planDigest : Hash
  targetSchemaDigest : Hash
  deriving DecidableEq

section
variable (sha256 : Bytes → Hash) {R : Type}

def readSnapshot (store : SqliteIncrementalStateStore) (db : DeltaDatabase) :
    Except (DurableDeltaStoreError R) (DurableDeltaReadback × List TargetRow) := do
  let metadata := db.metadata
  require (metadata.planDigest = store.planDigest ∧
    metadata.targetSchemaDigest = store.targetSchemaDigest ∧ metadata.sourceContextDigest ≠ .zero ∧
    metadata.targetContextDigest ≠ .zero) (.protocol .durableStoreMismatch)
  let rows := tableRows db.table
  (validateTargetRows rows).mapError .protocol
  let readback := { metadata with rowsDigest := targetRowsDigest sha256 rows }
  require (readback.rowCount = rows.length ∧ readback.rowsDigest = metadata.rowsDigest)
    (.protocol .durableReadbackMismatch)
  pure (readback, rows)

def readback (store : SqliteIncrementalStateStore) (db : DeltaDatabase) :
    Except (DurableDeltaStoreError R) DurableDeltaReadback :=
  (readSnapshot sha256 store db).map Prod.fst

variable (rootBuilder : RootBuilder R)

def readSnapshotWithRootBuilder (store : SqliteIncrementalStateStore) (db : DeltaDatabase) :
    Except (DurableDeltaStoreError R) (DurableDeltaReadback × List TargetRow) := do
  let (readback, rows) ← readSnapshot sha256 store db
  let recomputed ← (rootBuilder store.targetSchemaDigest rows).mapError .rootBuilder
  require (recomputed = readback.stateRoot) (.protocol .durableReadbackMismatch)
  pure (readback, rows)

def readbackWithRootBuilder (store : SqliteIncrementalStateStore) (db : DeltaDatabase) :
    Except (DurableDeltaStoreError R) DurableDeltaReadback :=
  (readSnapshotWithRootBuilder sha256 rootBuilder store db).map Prod.fst

/-- A new store at a path that did not exist. The image is read back before it is published, and
once more under its own path. -/
def initializeStore (planDigest targetSchemaDigest : Hash) (sourceContext : SourceCheckpointContext)
    (rows : List TargetRow) :
    Except (DurableDeltaStoreError R) (SqliteIncrementalStateStore × DeltaDatabase) := do
  require (planDigest ≠ .zero ∧ targetSchemaDigest ≠ .zero) (.protocol .invalidIncrementalDelta)
  (sourceContext.validate sha256).mapError .protocol
  (validateTargetRows rows).mapError .protocol
  let stateRoot ← (rootBuilder targetSchemaDigest rows).mapError .rootBuilder
  require (stateRoot ≠ .zero) (.protocol .invalidTargetRoot)
  let store : SqliteIncrementalStateStore := ⟨planDigest, targetSchemaDigest⟩
  let context := sourceContext.canonicalDigest sha256
  let db : DeltaDatabase :=
    ⟨⟨planDigest, targetSchemaDigest, context, context, targetRowsDigest sha256 rows, stateRoot,
      rows.length, 0, .zero⟩, tableOf rows⟩
  let readback ← readbackWithRootBuilder sha256 rootBuilder store db
  require (readback.stateRoot = stateRoot ∧ readback.rowCount = rows.length)
    (.protocol .durableReadbackMismatch)
  pure (store, db)

/-! ## Applying a delta -/

/-- What a call carries from its read to its transaction. -/
structure Prepared where
  delta : IncrementalStateDelta
  before : DurableDeltaReadback
  targetRows : List TargetRow

/-- An error of the pure functions, as the store reports it. -/
def stored : IncrementalDeltaError R → DurableDeltaStoreError R
  | .protocol error => .protocol error
  | .rootBuilder error => .rootBuilder error

/-- The first part of `apply_delta_v0`: it ends here for the delta that was installed last, and
otherwise has the change ready. -/
def prepare (store : SqliteIncrementalStateStore) (db : DeltaDatabase)
    (delta : IncrementalStateDelta) :
    Except (DurableDeltaStoreError R) (DurableDeltaInstallReceipt ⊕ Prepared) := do
  require (delta.planDigest = store.planDigest ∧
    delta.targetSchemaDigest = store.targetSchemaDigest) (.protocol .planSchemaMismatch)
  let (before, baseRows) ← readSnapshot sha256 store db
  require (before.stateRoot = delta.baseStateRoot ∧ before.rowsDigest = delta.baseRowsDigest ∧
    before.rowCount = delta.baseRowCount.toNat) (.protocol .baseStateMismatch)
  require (before.lastDeltaDigest = delta.deltaDigest ∨
    before.targetContextDigest = delta.sourceContext.canonicalDigest sha256)
    (.protocol .sourceCheckpointContextMismatch)
  let targetRows ← (applyIncrementalDelta sha256 rootBuilder delta delta.sourceContext
    delta.targetContext baseRows).mapError stored
  if before.lastDeltaDigest = delta.deltaDigest then
    require (before.rowsDigest = delta.targetRowsDigest ∧ before.stateRoot = delta.targetStateRoot ∧
      before.rowCount = delta.targetRowCount.toNat ∧
      before.targetContextDigest = delta.targetContext.canonicalDigest sha256)
      (.protocol .durableReadbackMismatch)
    pure (.inl ⟨before.stateRoot, before.stateRoot, before.generation, before.lastDeltaDigest⟩)
  else
    pure (.inr ⟨delta, before, targetRows⟩)

/-- The transaction of `apply_delta_v0`: the rows entry by entry, and the metadata where it is still
what the call read. A generation beyond the integers of SQLite is refused by the table. -/
def install (prepared : Prepared) (db : DeltaDatabase) :
    Except (DurableDeltaStoreError R) DeltaDatabase := do
  let delta := prepared.delta
  let before := prepared.before
  let table := delta.entries.foldl mutate db.table
  require (db.metadata.generation = before.generation ∧ db.metadata.rowsDigest = before.rowsDigest ∧
    db.metadata.stateRoot = before.stateRoot ∧
    db.metadata.targetContextDigest = before.targetContextDigest) (.protocol .baseStateMismatch)
  require (db.metadata.generation + 1 ≤ i64Max) .sqlite
  pure ⟨{ db.metadata with
    targetContextDigest := delta.targetContext.canonicalDigest sha256
    rowsDigest := targetRowsDigest sha256 prepared.targetRows
    stateRoot := delta.targetStateRoot
    rowCount := prepared.targetRows.length
    generation := db.metadata.generation + 1
    lastDeltaDigest := delta.deltaDigest }, table⟩

def confirm (store : SqliteIncrementalStateStore) (db : DeltaDatabase) (prepared : Prepared) :
    Except (DurableDeltaStoreError R) DurableDeltaInstallReceipt := do
  let delta := prepared.delta
  let after ← readbackWithRootBuilder sha256 rootBuilder store db
  require (after.stateRoot = delta.targetStateRoot ∧ after.rowsDigest = delta.targetRowsDigest ∧
    after.rowCount = delta.targetRowCount.toNat ∧ after.lastDeltaDigest = delta.deltaDigest ∧
    after.targetContextDigest = delta.targetContext.canonicalDigest sha256 ∧
    after.generation = prepared.before.generation + 1) (.protocol .durableReadbackMismatch)
  pure ⟨prepared.before.stateRoot, after.stateRoot, after.generation, after.lastDeltaDigest⟩

/-- A call with no other call between its parts. -/
def applyDelta (store : SqliteIncrementalStateStore) (db : DeltaDatabase)
    (delta : IncrementalStateDelta) :
    Except (DurableDeltaStoreError R) DurableDeltaInstallReceipt × DeltaDatabase :=
  match prepare sha256 rootBuilder store db delta with
  | .error e => (.error e, db)
  | .ok (.inl receipt) => (.ok receipt, db)
  | .ok (.inr prepared) =>
    match install sha256 prepared db with
    | .error e => (.error e, db)
    | .ok db' => (confirm sha256 rootBuilder store db' prepared, db')

/-! ## Snapshots -/

structure DurableDeltaSnapshot extends DurableDeltaReadback where
  rows : List TargetRow
  snapshotDigest : Hash
  deriving DecidableEq

def DurableDeltaReadback.snapshotMessage (readback : DurableDeltaReadback) : Bytes :=
  message "trnm.migration.durable-delta-snapshot.v0"
    [readback.planDigest.bytes, readback.targetSchemaDigest.bytes,
      readback.sourceContextDigest.bytes, readback.targetContextDigest.bytes,
      readback.rowsDigest.bytes, readback.stateRoot.bytes, Bytes.ofNatBE 8 readback.rowCount,
      Bytes.ofNatBE 8 readback.generation, readback.lastDeltaDigest.bytes]

variable (snapshot : DurableDeltaSnapshot)

def DurableDeltaSnapshot.canonicalDigest : Hash :=
  sha256 snapshot.snapshotMessage

def DurableDeltaSnapshot.validate :
    Except (DurableDeltaStoreError R) Unit := do
  require (snapshot.planDigest ≠ .zero ∧ snapshot.targetSchemaDigest ≠ .zero ∧
    snapshot.sourceContextDigest ≠ .zero ∧ snapshot.targetContextDigest ≠ .zero ∧
    snapshot.rowsDigest ≠ .zero ∧ snapshot.stateRoot ≠ .zero ∧
    snapshot.snapshotDigest = snapshot.canonicalDigest sha256 ∧ snapshot.rowCount ≤ maxExportRows ∧
    snapshot.generation ≤ i64Max) (.protocol .invalidDurableSnapshot)
  (validateTargetRows snapshot.rows).mapError .protocol
  require (snapshot.rowCount = snapshot.rows.length ∧
    targetRowsDigest sha256 snapshot.rows = snapshot.rowsDigest) (.protocol .snapshotRowsMismatch)
  let recomputed ← (rootBuilder snapshot.targetSchemaDigest snapshot.rows).mapError .rootBuilder
  require (recomputed = snapshot.stateRoot) (.protocol .snapshotRootMismatch)

def exportSnapshot (store : SqliteIncrementalStateStore) (db : DeltaDatabase) :
    Except (DurableDeltaStoreError R) DurableDeltaSnapshot := do
  let (readback, rows) ← readSnapshotWithRootBuilder sha256 rootBuilder store db
  let snapshot : DurableDeltaSnapshot := ⟨readback, rows, sha256 readback.snapshotMessage⟩
  snapshot.validate sha256 rootBuilder
  pure snapshot

/-- A new store with the contents of a snapshot, at a path that did not exist. -/
def initializeFromSnapshot :
    Except (DurableDeltaStoreError R) (SqliteIncrementalStateStore × DeltaDatabase) := do
  snapshot.validate sha256 rootBuilder
  let store : SqliteIncrementalStateStore := ⟨snapshot.planDigest, snapshot.targetSchemaDigest⟩
  let db : DeltaDatabase := ⟨snapshot.toDurableDeltaReadback, tableOf snapshot.rows⟩
  let readback ← readbackWithRootBuilder sha256 rootBuilder store db
  require (readback = snapshot.toDurableDeltaReadback) (.protocol .durableReadbackMismatch)
  pure (store, db)

def initializeFromSnapshotBound
    (sourceContext targetContext : SourceCheckpointContext) :
    Except (DurableDeltaStoreError R) (SqliteIncrementalStateStore × DeltaDatabase) := do
  snapshot.validate sha256 rootBuilder
  (sourceContext.validate sha256).mapError .protocol
  (targetContext.validate sha256).mapError .protocol
  require (snapshot.sourceContextDigest = sourceContext.canonicalDigest sha256 ∧
    snapshot.targetContextDigest = targetContext.canonicalDigest sha256 ∧
    targetContext.stateRoot = snapshot.stateRoot ∧
    (sourceContext = targetContext ∨ sourceContext.ValidProgression targetContext))
    (.protocol .sourceCheckpointContextMismatch)
  initializeFromSnapshot sha256 rootBuilder snapshot

def initializeFromVerifiedSnapshot
    (sourceContext targetContext : VerifiedSourceCheckpointContext) :
    Except (DurableDeltaStoreError R) (SqliteIncrementalStateStore × DeltaDatabase) :=
  initializeFromSnapshotBound sha256 rootBuilder snapshot sourceContext.context
    targetContext.context

end

end Trillionnium.StateImport
