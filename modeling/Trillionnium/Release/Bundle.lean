import Trillionnium.Hash
import Trillionnium.Lib.Canonical
import Trillionnium.Lib.Collect
import Trillionnium.Lib.Layout

/-!
# Release bundles

A bundle declares its source, artifacts, packages and provenance. Its digest is a tree of digests:
the records are framed field by field, and the lists are sorted and their digests concatenated.
-/

namespace Trillionnium.Release

open Lib Pon

def maxArtifacts : Nat := 4096

def maxPackages : Nat := 100000

def maxBuildInputs : Nat := 100000

def maxNameBytes : Nat := 512

def maxVersionBytes : Nat := 256

def maxMediaTypeBytes : Nat := 256

def maxLicenseBytes : Nat := 512

def maxArtifactBytes : Nat := 128 * 1024 * 1024 * 1024

inductive ReleaseBundleError where
  | invalidArtifact
  | invalidSbomPackage
  | invalidExactSource
  | invalidBuildInput
  | invalidProvenance
  | duplicateBuildInput
  | invalidBundle
  | duplicateArtifact
  | duplicateSbomPackage
  | incompleteSbom
  | provenanceBindingMismatch
  deriving DecidableEq

inductive ReleaseBundleHostError (E : Type) where
  | protocol (error : ReleaseBundleError)
  | signature (error : E)
  deriving DecidableEq

/-- The bytes hashed for a domain and its parts, each behind its length. -/
def framed (domain : String) (parts : List Bytes) : Bytes :=
  Bytes.framesBE 8 (Bytes.ofString domain :: parts)

def flag (b : Bool) : Bytes := [if b then 1 else 0]

/-- Printable ASCII of bounded length. -/
def ValidText (value : Bytes) (maximum : Nat) : Prop :=
  value ≠ [] ∧ value.length ≤ maximum ∧ ∀ byte ∈ value, 0x20 ≤ byte ∧ byte ≤ 0x7e

instance {value : Bytes} {maximum : Nat} : Decidable (ValidText value maximum) :=
  inferInstanceAs (Decidable (_ ∧ _))

structure ArtifactEntry where
  logicalName : Bytes
  mediaType : Bytes
  sizeBytes : U64
  contentDigest : Hash
  executable : Bool
  platformDigest : Hash
  sourcePathDigest : Hash

namespace ArtifactEntry

/-- The derived order, field by field. -/
def orderKey (a : ArtifactEntry) : Bytes ×ₗ Bytes ×ₗ U64 ×ₗ Hash ×ₗ Bool ×ₗ Hash ×ₗ Hash :=
  toLex (a.logicalName, toLex (a.mediaType, toLex (a.sizeBytes, toLex (a.contentDigest,
    toLex (a.executable, toLex (a.platformDigest, a.sourcePathDigest))))))

def validate (a : ArtifactEntry) : Except ReleaseBundleError Unit :=
  require (ValidText a.logicalName maxNameBytes ∧ ValidText a.mediaType maxMediaTypeBytes ∧
    a.sizeBytes ≠ 0 ∧ a.sizeBytes.toNat ≤ maxArtifactBytes ∧ a.contentDigest ≠ .zero ∧
    a.platformDigest ≠ .zero ∧ a.sourcePathDigest ≠ .zero) .invalidArtifact

def message (a : ArtifactEntry) : Bytes :=
  framed "trnm.release.artifact.v0" [a.logicalName, a.mediaType, Bytes.be 8 a.sizeBytes,
    a.contentDigest.bytes, flag a.executable, a.platformDigest.bytes, a.sourcePathDigest.bytes]

end ArtifactEntry

structure SbomPackage where
  packageName : Bytes
  packageVersion : Bytes
  sourceDigest : Hash
  packageChecksum : Hash
  licenseExpression : Bytes
  directProductionDependency : Bool

namespace SbomPackage

def orderKey (p : SbomPackage) : Bytes ×ₗ Bytes ×ₗ Hash ×ₗ Hash ×ₗ Bytes ×ₗ Bool :=
  toLex (p.packageName, toLex (p.packageVersion, toLex (p.sourceDigest, toLex (p.packageChecksum,
    toLex (p.licenseExpression, p.directProductionDependency)))))

/-- The name and version, under which a package is listed once. -/
def key (p : SbomPackage) : Bytes ×ₗ Bytes := toLex (p.packageName, p.packageVersion)

def validate (p : SbomPackage) : Except ReleaseBundleError Unit :=
  require (ValidText p.packageName maxNameBytes ∧ ValidText p.packageVersion maxVersionBytes ∧
    ValidText p.licenseExpression maxLicenseBytes ∧ p.sourceDigest ≠ .zero ∧
    p.packageChecksum ≠ .zero) .invalidSbomPackage

def message (p : SbomPackage) : Bytes :=
  framed "trnm.release.sbom-package.v0" [p.packageName, p.packageVersion, p.sourceDigest.bytes,
    p.packageChecksum.bytes, p.licenseExpression, flag p.directProductionDependency]

end SbomPackage

structure ExactSource where
  repositoryDigest : Hash
  commitDigest : Hash
  treeDigest : Hash
  cargoLockDigest : Hash
  toolchainDigest : Hash
  productionClosureDigest : Hash
  dirty : Bool

namespace ExactSource

def validate (s : ExactSource) : Except ReleaseBundleError ExactSource := do
  require (¬ s.dirty ∧ s.repositoryDigest ≠ .zero ∧ s.commitDigest ≠ .zero ∧ s.treeDigest ≠ .zero ∧
    s.cargoLockDigest ≠ .zero ∧ s.toolchainDigest ≠ .zero ∧ s.productionClosureDigest ≠ .zero)
    .invalidExactSource
  return s

def message (s : ExactSource) : Bytes :=
  framed "trnm.release.exact-source.v0" [s.repositoryDigest.bytes, s.commitDigest.bytes,
    s.treeDigest.bytes, s.cargoLockDigest.bytes, s.toolchainDigest.bytes,
    s.productionClosureDigest.bytes, flag s.dirty]

end ExactSource

structure BuildInput where
  logicalName : Bytes
  sourceDigest : Hash
  contentDigest : Hash

namespace BuildInput

def orderKey (i : BuildInput) : Bytes ×ₗ Hash ×ₗ Hash :=
  toLex (i.logicalName, toLex (i.sourceDigest, i.contentDigest))

def key (i : BuildInput) : Bytes ×ₗ Hash := toLex (i.logicalName, i.sourceDigest)

def validate (i : BuildInput) : Except ReleaseBundleError Unit :=
  require (ValidText i.logicalName maxNameBytes ∧ i.sourceDigest ≠ .zero ∧ i.contentDigest ≠ .zero)
    .invalidBuildInput

def message (i : BuildInput) : Bytes :=
  framed "trnm.release.build-input.v0" [i.logicalName, i.sourceDigest.bytes, i.contentDigest.bytes]

end BuildInput

structure BuilderProvenance where
  builderIdentityDigest : Hash
  workflowDigest : Hash
  runIdentityDigest : Hash
  isolatedEnvironmentDigest : Hash
  exactSourceDigest : Hash
  buildInputs : List BuildInput
  artifactSetDigest : Hash
  sbomDigest : Hash
  provenanceDigest : Hash

structure ReleaseBundle where
  bundleName : Bytes
  releaseVersion : Bytes
  protocolDigest : Hash
  exactSource : ExactSource
  artifacts : List ArtifactEntry
  sbomPackages : List SbomPackage
  provenance : BuilderProvenance
  previousBundleDigest : Option Hash
  signerIdentityDigest : Hash
  signatureDigest : Hash
  bundleDigest : Hash

structure VerifiedReleaseBundle where
  bundleDigest : Hash
  exactSourceDigest : Hash
  artifactSetDigest : Hash
  sbomDigest : Hash
  provenanceDigest : Hash
  artifactCount : U32
  packageCount : U32
  deriving DecidableEq

section
variable (sha256 : Bytes → Hash)

def ArtifactEntry.canonicalDigest (a : ArtifactEntry) : Hash := sha256 a.message

def SbomPackage.canonicalDigest (p : SbomPackage) : Hash := sha256 p.message

def ExactSource.canonicalDigest (s : ExactSource) : Hash := sha256 s.message

def BuildInput.canonicalDigest (i : BuildInput) : Hash := sha256 i.message

namespace BuilderProvenance

def message (p : BuilderProvenance) : Bytes :=
  let inputs := sortedBy BuildInput.orderKey p.buildInputs
  Bytes.ofString "trnm.release.builder-provenance.v0" ++ p.builderIdentityDigest.bytes ++
    p.workflowDigest.bytes ++ p.runIdentityDigest.bytes ++ p.isolatedEnvironmentDigest.bytes ++
    p.exactSourceDigest.bytes ++ Bytes.ofNatBE 8 inputs.length ++
    (inputs.flatMap fun i => (i.canonicalDigest sha256).bytes) ++
    p.artifactSetDigest.bytes ++ p.sbomDigest.bytes

def canonicalDigest (p : BuilderProvenance) : Hash := sha256 (p.message sha256)

def validate (p : BuilderProvenance) : Except ReleaseBundleError Unit := do
  require (p.builderIdentityDigest ≠ .zero ∧ p.workflowDigest ≠ .zero ∧
    p.runIdentityDigest ≠ .zero ∧
    p.isolatedEnvironmentDigest ≠ .zero ∧ p.exactSourceDigest ≠ .zero ∧
    p.artifactSetDigest ≠ .zero ∧
    p.sbomDigest ≠ .zero ∧ p.buildInputs ≠ [] ∧ p.buildInputs.length ≤ maxBuildInputs ∧
    p.provenanceDigest = p.canonicalDigest sha256) .invalidProvenance
  let _ ← OrdMap.collect BuildInput.validate (fun _ => .duplicateBuildInput) BuildInput.key
    p.buildInputs
  return ()

end BuilderProvenance

namespace ReleaseBundle

def artifactSetMessage (b : ReleaseBundle) : Bytes :=
  Bytes.ofString "trnm.release.artifact-set.v0" ++
    (sortedBy ArtifactEntry.orderKey b.artifacts).flatMap fun a => (a.canonicalDigest sha256).bytes

def artifactSetDigest (b : ReleaseBundle) : Hash := sha256 (b.artifactSetMessage sha256)

def sbomMessage (b : ReleaseBundle) : Bytes :=
  Bytes.ofString "trnm.release.sbom.v0" ++
    (sortedBy SbomPackage.orderKey b.sbomPackages).flatMap fun p => (p.canonicalDigest sha256).bytes

def sbomDigest (b : ReleaseBundle) : Hash := sha256 (b.sbomMessage sha256)

/-- A bundle without a predecessor has zero bytes in its place. -/
def message (b : ReleaseBundle) : Bytes :=
  framed "trnm.release.bundle.v0" [b.bundleName, b.releaseVersion, b.protocolDigest.bytes,
    (b.exactSource.canonicalDigest sha256).bytes, (b.artifactSetDigest sha256).bytes,
    (b.sbomDigest sha256).bytes, b.provenance.provenanceDigest.bytes,
    (b.previousBundleDigest.getD .zero).bytes, b.signerIdentityDigest.bytes]

def canonicalDigest (b : ReleaseBundle) : Hash := sha256 (b.message sha256)

end ReleaseBundle

/-- An error of the release protocol, as the host sees it. -/
def hosted {E α : Type} (x : Except ReleaseBundleError α) : Except (ReleaseBundleHostError E) α :=
  x.mapError .protocol

def verifyReleaseBundle {E : Type} (verifier : ReleaseBundle → Except E Unit)
    (bundle : ReleaseBundle) (requiredProductionPackages : List (Bytes × Bytes)) :
    Except (ReleaseBundleHostError E) VerifiedReleaseBundle := do
  require (ValidText bundle.bundleName maxNameBytes ∧
    ValidText bundle.releaseVersion maxVersionBytes ∧
    bundle.protocolDigest ≠ .zero ∧ bundle.artifacts ≠ [] ∧ bundle.artifacts.length ≤ maxArtifacts ∧
    bundle.sbomPackages ≠ [] ∧ bundle.sbomPackages.length ≤ maxPackages ∧
    bundle.signerIdentityDigest ≠ .zero ∧ bundle.signatureDigest ≠ .zero) (.protocol .invalidBundle)
  let exactSource ← hosted bundle.exactSource.validate
  let _ ← hosted (OrdMap.collect ArtifactEntry.validate (fun _ => .duplicateArtifact)
    ArtifactEntry.logicalName bundle.artifacts)
  let packageKeys ← hosted (OrdMap.collect SbomPackage.validate (fun _ => .duplicateSbomPackage)
    SbomPackage.key bundle.sbomPackages)
  forM requiredProductionPackages fun required =>
    require (packageKeys.get (toLex required) ≠ none) (.protocol .incompleteSbom)
  hosted (bundle.provenance.validate sha256)
  let exactSourceDigest := exactSource.canonicalDigest sha256
  let artifactSetDigest := bundle.artifactSetDigest sha256
  let sbomDigest := bundle.sbomDigest sha256
  require (bundle.provenance.exactSourceDigest = exactSourceDigest ∧
    bundle.provenance.artifactSetDigest = artifactSetDigest ∧
    bundle.provenance.sbomDigest = sbomDigest ∧
    bundle.bundleDigest = bundle.canonicalDigest sha256) (.protocol .provenanceBindingMismatch)
  (verifier bundle).mapError .signature
  return ⟨bundle.bundleDigest, exactSourceDigest, artifactSetDigest, sbomDigest,
    bundle.provenance.provenanceDigest, .ofNat 32 bundle.artifacts.length,
    .ofNat 32 bundle.sbomPackages.length⟩

end

inductive ReproducibilityDecision where
  | match_
  | mismatch

def compareIndependentBuilds (first second : VerifiedReleaseBundle) : ReproducibilityDecision :=
  if first.exactSourceDigest = second.exactSourceDigest ∧
      first.artifactSetDigest = second.artifactSetDigest ∧ first.sbomDigest = second.sbomDigest ∧
      first.artifactCount = second.artifactCount ∧ first.packageCount = second.packageCount then
        .match_
  else .mismatch

end Trillionnium.Release
