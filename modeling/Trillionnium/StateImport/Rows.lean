import Trillionnium.Hash
import Trillionnium.Lib.Layout
import Trillionnium.Lib.Merkle
import Trillionnium.Lib.Rows

/-!
# Finalized exports

The rows of an export, their Merkle root and the header that commits to both, with
`verify_export_v0` and `validate_verified_rows_v0`. SHA-256 is a parameter, and so is the host's
finality verifier.
-/

namespace Trillionnium.StateImport

open Lib Pon

def maxExportRows : Nat := 100000000
def maxNamespaceBytes : Nat := 128
def maxKeyBytes : Nat := 64 * 1024
def maxValueBytes : Nat := 16 * 1024 * 1024
def maxIncrementalDeltaRows : Nat := 1000000

inductive MigrationError where
  | invalidExportRow
  | forbiddenAuthorityState
  | invalidExportHeader
  | invalidSourceBinding
  | rowsNotStrictlyOrdered
  | exportRootMismatch
  | verifiedExportMismatch
  | invalidTargetRow
  | invalidMigrationPlan
  | duplicateTargetKey
  | invalidTargetRoot
  | invalidCutoverAgreement
  | insufficientCutoverWeight
  | weightOverflow
  | invalidDeltaRow
  | invalidIncrementalDelta
  | invalidSourceCheckpointContext
  | sourceCheckpointContextMismatch
  | deltaRootMismatch
  | deltaRowsOutOfBounds
  | targetRowsOutOfBounds
  | baseStateMismatch
  | targetStateMismatch
  | planSchemaMismatch
  | storeAlreadyInitialized
  | storeSchemaMismatch
  | durableStoreMismatch
  | durableReadbackMismatch
  | invalidDurableSnapshot
  | snapshotRowsMismatch
  | snapshotRootMismatch
  | invalidHandoffRecord
  | invalidHandoffTransition
  | invalidReadinessReceipt
  deriving DecidableEq

inductive MigrationHostError (A : Type) where
  | protocol (error : MigrationError)
  | sourceFinality (error : A)
  | sourceCheckpointContext (error : A)
  | cutoverSignature (error : A)
  deriving DecidableEq

/-! ## Digests -/

/-- What `Digest32V0::hash` hashes: the domain and the parts, each behind its length. -/
def message (domain : String) (parts : List Bytes) : Bytes :=
  Bytes.framesBE 8 (Bytes.ofString domain :: parts)

/-- Parts that fit their lengths are read back from the message. -/
theorem message_inj (hps : ∀ p ∈ ps, p.length < 2 ^ 64)
    (hqs : ∀ q ∈ qs, q.length < 2 ^ 64) (h : message domain ps = message domain qs) : ps = qs := by
  simp only [message, Bytes.framesBE, List.flatMap_cons] at h
  exact Bytes.framesBE_inj (w := 8) (by decide) hps hqs (List.append_cancel_left h)

section
variable (sha256 : Bytes → Hash)

def node (domain : String) (left right : Hash) : Hash :=
  sha256 (message domain [left.bytes, right.bytes])

/-- A Merkle root over digests, with the last node of an odd level paired with itself. -/
def rootOver (emptyDomain nodeDomain : String) (digests : List Hash) : Hash :=
  if digests = [] then sha256 (message emptyDomain [])
  else (Merkle.top (fun _ => node sha256 nodeDomain) digests.length 0 digests).headD .zero

def merkleRoot (digests : List Hash) : Hash :=
  rootOver sha256 "trnm.migration.empty-root.v0" "trnm.migration.merkle-node.v0" digests

/-- The messages hashed on the way from the digests to the root. -/
def nodeMessages (domain : String) (digests : List Hash) : List Bytes :=
  (Merkle.topPairs (fun _ => node sha256 domain) digests.length 0 digests).map fun p =>
    message domain [p.2.1.bytes, p.2.2.bytes]

variable {sha256}

/-- A root is a digest of the empty message, a leaf or a digest of a node. -/
theorem rootOver_ne_zero
    (hempty : sha256 (message emptyDomain []) ≠ .zero) (hleaf : ∀ d ∈ ds, d ≠ .zero)
    (hnodes : ∀ m ∈ nodeMessages sha256 nodeDomain ds, sha256 m ≠ .zero) :
    rootOver sha256 emptyDomain nodeDomain ds ≠ .zero := by
  rw [rootOver]
  split
  · exact hempty
  · next hne =>
    obtain ⟨r, hr⟩ := List.length_eq_one_iff.mp
      (@Merkle.length_top _ _ _ 0 (fun _ => node sha256 nodeDomain) hne le_rfl)
    have hmem : r ∈ Merkle.top (fun _ => node sha256 nodeDomain) ds.length 0 ds := by simp [hr]
    rw [hr, List.headD_cons]
    rcases Merkle.mem_top _ hmem with hmem | ⟨p, hp, rfl⟩
    · exact hleaf r hmem
    · exact hnodes _ (List.mem_map_of_mem hp)

/-- A root binds digests of a known number. -/
theorem rootOver_inj
    (hsha : Set.InjOn sha256 {m | m ∈ nodeMessages sha256 nodeDomain ds ∨
      m ∈ nodeMessages sha256 nodeDomain ds'}) (hlen : ds.length = ds'.length)
    (h : rootOver sha256 emptyDomain nodeDomain ds = rootOver sha256 emptyDomain nodeDomain ds') :
    ds = ds' := by
  by_cases hnil : ds = []
  · subst hnil
    exact (List.length_eq_zero_iff.mp hlen.symm).symm
  · have hnil' : ds' ≠ [] := fun h' =>
      hnil (List.length_eq_zero_iff.mp (by rw [hlen, h', List.length_nil]))
    rw [rootOver, if_neg hnil, rootOver, if_neg hnil'] at h
    obtain ⟨r, hr⟩ := List.length_eq_one_iff.mp
      (@Merkle.length_top _ _ _ 0 (fun _ => node sha256 nodeDomain) hnil le_rfl)
    obtain ⟨r', hr'⟩ := List.length_eq_one_iff.mp
      (@Merkle.length_top _ _ _ 0 (fun _ => node sha256 nodeDomain) hnil' le_rfl)
    have htop : Merkle.top (fun _ => node sha256 nodeDomain) ds.length 0 ds =
        Merkle.top (fun _ => node sha256 nodeDomain) ds.length 0 ds' := by
      rw [hr, hr'] at h
      rw [hr, hlen, hr', show r = r' from h]
    refine Merkle.top_inj _ hlen htop fun p hp q hq _ heq => ?_
    have hmsg := hsha (.inl (List.mem_map_of_mem hp)) (.inr (List.mem_map_of_mem (hlen ▸ hq))) heq
    have hparts := message_inj (by simp [Hash.size_eq]) (by simp [Hash.size_eq]) hmsg
    simp only [List.cons.injEq, and_true] at hparts
    exact Prod.ext (Hash.ext_bytes hparts.1) (Hash.ext_bytes hparts.2)

end

/-! ## Rows -/

/-- Rows are ordered by their namespace and key, as byte strings. -/
abbrev RowKey := Bytes ×ₗ Bytes

/-- The bytes that a row of an export, or of the target state, is committed by. -/
def rowMessage (space key value : Bytes) : Bytes :=
  message "trnm.migration.export-row.v0" [space, key, value]

structure ExportRow where
  space : Bytes
  key : Bytes
  value : Bytes
  rowDigest : Hash
  deriving DecidableEq

def ExportRow.rowKey (row : ExportRow) : RowKey := toLex (row.space, row.key)

def reservedNamespaces : List Bytes :=
  ["validator_signing_state", "consensus_private_key", "signer_journal", "safety_store",
    "remote_signer_watermark", "node_commit_ledger", "operator_recovery_key"].map Bytes.ofString

def forbiddenAuthorityNamespace (space : Bytes) : Bool :=
  reservedNamespaces.any (·.isPrefixOf space)

/-- The bounds that rows of an export, of the target state and of a delta share. -/
def Bounded (space key value : Bytes) : Prop :=
  space ≠ [] ∧ space.length ≤ maxNamespaceBytes ∧ key ≠ [] ∧ key.length ≤ maxKeyBytes ∧
    value.length ≤ maxValueBytes

instance {space key value : Bytes} : Decidable (Bounded space key value) :=
  inferInstanceAs (Decidable (_ ∧ _))

/-- Within the bounds the row is read back from its message. -/
theorem rowMessage_inj (h : Bounded space key value) (h' : Bounded space' key' value')
    (heq : rowMessage space key value = rowMessage space' key' value') :
    space = space' ∧ key = key' ∧ value = value' := by
  obtain ⟨-, hs, -, hk, hv⟩ := h
  obtain ⟨-, hs', -, hk', hv'⟩ := h'
  simp only [maxNamespaceBytes, maxKeyBytes, maxValueBytes] at hs hk hv hs' hk' hv'
  have hparts := message_inj (by simp; omega) (by simp; omega) heq
  simpa using hparts

section
variable (sha256 : Bytes → Hash)

def ExportRow.canonicalDigest (space key value : Bytes) : Hash :=
  sha256 (rowMessage space key value)

def ExportRow.validate (row : ExportRow) : Except MigrationError Unit := do
  require (Bounded row.space row.key row.value ∧
    row.rowDigest = ExportRow.canonicalDigest sha256 row.space row.key row.value) .invalidExportRow
  require (¬ forbiddenAuthorityNamespace row.space) .forbiddenAuthorityState

/-! ## Headers -/

structure FinalizedExportHeader where
  sourceChainId : Hash
  sourceProtocolDigest : Hash
  sourceHeight : U64
  sourceStateRoot : Hash
  sourceSchemaDigest : Hash
  sourceFinalityProofDigest : Hash
  rowCount : U64
  exportRoot : Hash
  headerDigest : Hash
  deriving DecidableEq

def FinalizedExportHeader.message (header : FinalizedExportHeader) : Bytes :=
  StateImport.message "trnm.migration.finalized-export-header.v0"
    [header.sourceChainId.bytes, header.sourceProtocolDigest.bytes, Bytes.be 8 header.sourceHeight,
      header.sourceStateRoot.bytes, header.sourceSchemaDigest.bytes,
      header.sourceFinalityProofDigest.bytes, Bytes.be 8 header.rowCount, header.exportRoot.bytes]

def FinalizedExportHeader.canonicalDigest (header : FinalizedExportHeader) : Hash :=
  sha256 header.message

/-- Issued only by `verifyExport`. -/
structure VerifiedExport where
  header : FinalizedExportHeader
  orderedRowsDigest : Hash
  deriving DecidableEq

/-- The running hash over the rows' digests. -/
def orderedRowsMessage (digests : List Hash) : Bytes :=
  Bytes.ofString "trnm.migration.ordered-rows.v0" ++ digests.flatMap Hash.bytes

def validateVerifiedRows (export_ : VerifiedExport) (rows : List ExportRow) :
    Except MigrationError Unit := do
  require (export_.header.rowCount.toNat = rows.length) .verifiedExportMismatch
  Rows.checkOrdered (ExportRow.validate sha256) ExportRow.rowKey .rowsNotStrictlyOrdered none rows
  let rowDigests := rows.map ExportRow.rowDigest
  require (merkleRoot sha256 rowDigests = export_.header.exportRoot ∧
    sha256 (orderedRowsMessage rowDigests) = export_.orderedRowsDigest) .verifiedExportMismatch

/-- An error of the migration protocol, as the host sees it. -/
def hosted {A α : Type} (x : Except MigrationError α) : Except (MigrationHostError A) α :=
  x.mapError .protocol

def verifyExport {A : Type} (verifier : FinalizedExportHeader → Except A Unit)
    (header : FinalizedExportHeader) (rows : List ExportRow) :
    Except (MigrationHostError A) VerifiedExport := do
  require (header.sourceChainId ≠ .zero ∧ header.sourceProtocolDigest ≠ .zero ∧
    header.sourceHeight ≠ 0 ∧ header.sourceStateRoot ≠ .zero ∧ header.sourceSchemaDigest ≠ .zero ∧
    header.sourceFinalityProofDigest ≠ .zero ∧ header.rowCount ≠ 0 ∧
    header.rowCount.toNat ≤ maxExportRows ∧ header.rowCount.toNat = rows.length ∧
    header.exportRoot ≠ .zero ∧ header.headerDigest ≠ .zero ∧
    header.headerDigest = header.canonicalDigest sha256) (.protocol .invalidExportHeader)
  (verifier header).mapError .sourceFinality
  hosted (Rows.checkOrdered (ExportRow.validate sha256) ExportRow.rowKey
    .rowsNotStrictlyOrdered none rows)
  let rowDigests := rows.map ExportRow.rowDigest
  require (merkleRoot sha256 rowDigests = header.exportRoot) (.protocol .exportRootMismatch)
  pure ⟨header, sha256 (orderedRowsMessage rowDigests)⟩

end

end Trillionnium.StateImport
