import Trillionnium.Release.Bundle

/-!
# What a release digest binds

The digest of an accepted bundle determines its fields, and its three lists up to order. The one
exception is a zero digest in the place of the predecessor, which is hashed like no predecessor.
-/

namespace Trillionnium.Release

open Lib Pon

/-! ## Messages -/

/-- Short enough that the length in front of it is exact. -/
def Short (part : Bytes) : Prop := part.length ≤ 512

theorem framed_inj (hdomain : (Bytes.ofString domain).length ≤ 512)
    (hps : ∀ p ∈ ps, Short p) (hqs : ∀ q ∈ qs, Short q) (h : framed domain ps = framed domain qs) :
    ps = qs := by
  have hwidth {part : Bytes} (hshort : part.length ≤ 512) : part.length < 256 ^ 8 :=
    hshort.trans_lt (by decide)
  have hframes := Bytes.framesBE_inj (by decide)
    (List.forall_mem_cons.mpr ⟨hwidth hdomain, fun p hp => hwidth (hps p hp)⟩)
    (List.forall_mem_cons.mpr ⟨hwidth hdomain, fun q hq => hwidth (hqs q hq)⟩) h
  exact (List.cons.inj hframes).2

theorem flag_inj (h : flag b = flag c) : b = c := by
  revert h
  cases b <;> cases c <;> decide

@[simp] theorem short_flag : Short (flag b) := Nat.le_of_ble_eq_true rfl

@[simp] theorem short_digest {d : Hash} : Short d.bytes := d.size_eq.trans_le (by decide)

@[simp] theorem short_be : Short (Bytes.be 8 x) := Bytes.length_be.trans_le (by decide)

theorem ValidText.short (h : ValidText value maximum)
    (hmaximum : maximum ≤ 512) : Short value := h.2.1.trans hmaximum

namespace ArtifactEntry

theorem orderKey_injective : orderKey.Injective := by
  rintro ⟨⟩ ⟨⟩ h
  simp only [orderKey, EmbeddingLike.apply_eq_iff_eq, Prod.mk.injEq] at h
  simp only [mk.injEq]
  tauto

theorem message_inj {a b : ArtifactEntry} (ha : a.validate = .ok ()) (hb : b.validate = .ok ())
    (h : a.message = b.message) : a = b := by
  obtain ⟨haname, hatype, -⟩ := require_eq_ok.mp ha
  obtain ⟨hbname, hbtype, -⟩ := require_eq_ok.mp hb
  have hparts := framed_inj (by decide)
    (by simp [haname.short le_rfl, hatype.short (by decide)])
    (by simp [hbname.short le_rfl, hbtype.short (by decide)]) h
  simp only [List.cons.injEq, and_true] at hparts
  obtain ⟨hname, htype, hsize, hcontent, hexecutable, hplatform, hpath⟩ := hparts
  cases a
  cases b
  simp only [mk.injEq]
  exact ⟨hname, htype, Bytes.be_inj rfl hsize, Hash.ext_bytes hcontent, flag_inj hexecutable,
    Hash.ext_bytes hplatform, Hash.ext_bytes hpath⟩

end ArtifactEntry

namespace SbomPackage

theorem orderKey_injective : orderKey.Injective := by
  rintro ⟨⟩ ⟨⟩ h
  simp only [orderKey, EmbeddingLike.apply_eq_iff_eq, Prod.mk.injEq] at h
  simp only [mk.injEq]
  tauto

theorem message_inj {p q : SbomPackage} (hp : p.validate = .ok ()) (hq : q.validate = .ok ())
    (h : p.message = q.message) : p = q := by
  obtain ⟨hpname, hpversion, hplicense, -⟩ := require_eq_ok.mp hp
  obtain ⟨hqname, hqversion, hqlicense, -⟩ := require_eq_ok.mp hq
  have hparts := framed_inj (by decide)
    (by simp [hpname.short le_rfl, hpversion.short (by decide), hplicense.short le_rfl])
    (by simp [hqname.short le_rfl, hqversion.short (by decide), hqlicense.short le_rfl]) h
  simp only [List.cons.injEq, and_true] at hparts
  obtain ⟨hname, hversion, hsource, hchecksum, hlicense, hdirect⟩ := hparts
  cases p
  cases q
  simp only [mk.injEq]
  exact ⟨hname, hversion, Hash.ext_bytes hsource, Hash.ext_bytes hchecksum, hlicense,
    flag_inj hdirect⟩

end SbomPackage

namespace BuildInput

theorem orderKey_injective : orderKey.Injective := by
  rintro ⟨⟩ ⟨⟩ h
  simp only [orderKey, EmbeddingLike.apply_eq_iff_eq, Prod.mk.injEq] at h
  simp only [mk.injEq]
  tauto

theorem message_inj {i j : BuildInput} (hi : i.validate = .ok ()) (hj : j.validate = .ok ())
    (h : i.message = j.message) : i = j := by
  obtain ⟨hiname, -⟩ := require_eq_ok.mp hi
  obtain ⟨hjname, -⟩ := require_eq_ok.mp hj
  have hparts := framed_inj (by decide) (by simp [hiname.short le_rfl])
    (by simp [hjname.short le_rfl]) h
  simp only [List.cons.injEq, and_true] at hparts
  obtain ⟨hname, hsource, hcontent⟩ := hparts
  cases i
  cases j
  simp only [mk.injEq]
  exact ⟨hname, Hash.ext_bytes hsource, Hash.ext_bytes hcontent⟩

end BuildInput

theorem ExactSource.message_inj {s t : ExactSource} (h : s.message = t.message) : s = t := by
  have hparts := framed_inj (by decide) (by simp) (by simp) h
  simp only [List.cons.injEq, and_true] at hparts
  obtain ⟨hrepository, hcommit, htree, hlock, htoolchain, hclosure, hdirty⟩ := hparts
  cases s
  cases t
  simp only [mk.injEq]
  exact ⟨Hash.ext_bytes hrepository, Hash.ext_bytes hcommit, Hash.ext_bytes htree,
    Hash.ext_bytes hlock, Hash.ext_bytes htoolchain, Hash.ext_bytes hclosure, flag_inj hdirty⟩

/-! ## Acceptance -/

section
variable (sha256 : Bytes → Hash) {E : Type} {verifier : ReleaseBundle → Except E Unit}
  {required : List (Bytes × Bytes)} {a b : ReleaseBundle} {r r' : VerifiedReleaseBundle}

/-- What `verifyReleaseBundle` asks of a provenance. -/
structure BuilderProvenance.Valid (p : BuilderProvenance) : Prop where
  nonzero : p.builderIdentityDigest ≠ .zero ∧ p.workflowDigest ≠ .zero ∧
    p.runIdentityDigest ≠ .zero ∧
    p.isolatedEnvironmentDigest ≠ .zero ∧ p.exactSourceDigest ≠ .zero ∧
    p.artifactSetDigest ≠ .zero ∧
    p.sbomDigest ≠ .zero
  inputs_ne_nil : p.buildInputs ≠ []
  inputs_le : p.buildInputs.length ≤ maxBuildInputs
  digest : p.provenanceDigest = p.canonicalDigest sha256
  inputs : ∀ i ∈ p.buildInputs, i.validate = .ok ()
  inputs_nodup : (p.buildInputs.map BuildInput.key).Nodup

/-- What `verifyReleaseBundle` asks of a bundle before the signature. -/
structure ReleaseBundle.Accepted (b : ReleaseBundle) (required : List (Bytes × Bytes)) : Prop where
  name : ValidText b.bundleName maxNameBytes
  version : ValidText b.releaseVersion maxVersionBytes
  nonzero : b.protocolDigest ≠ .zero ∧ b.signerIdentityDigest ≠ .zero ∧ b.signatureDigest ≠ .zero
  artifacts_ne_nil : b.artifacts ≠ []
  artifacts_le : b.artifacts.length ≤ maxArtifacts
  packages_ne_nil : b.sbomPackages ≠ []
  packages_le : b.sbomPackages.length ≤ maxPackages
  source : b.exactSource.validate = .ok b.exactSource
  artifacts : ∀ a ∈ b.artifacts, a.validate = .ok ()
  artifacts_nodup : (b.artifacts.map ArtifactEntry.logicalName).Nodup
  packages : ∀ p ∈ b.sbomPackages, p.validate = .ok ()
  packages_nodup : (b.sbomPackages.map SbomPackage.key).Nodup
  complete : ∀ key ∈ required, toLex key ∈ b.sbomPackages.map SbomPackage.key
  provenance : b.provenance.Valid sha256
  bound : b.provenance.exactSourceDigest = b.exactSource.canonicalDigest sha256 ∧
    b.provenance.artifactSetDigest = b.artifactSetDigest sha256 ∧
    b.provenance.sbomDigest = b.sbomDigest sha256
  digest : b.bundleDigest = b.canonicalDigest sha256

def ReleaseBundle.verified (b : ReleaseBundle) : VerifiedReleaseBundle :=
  ⟨b.bundleDigest, b.exactSource.canonicalDigest sha256, b.artifactSetDigest sha256,
    b.sbomDigest sha256, b.provenance.provenanceDigest, .ofNat 32 b.artifacts.length,
    .ofNat 32 b.sbomPackages.length⟩

theorem hosted_eq_ok {α : Type} {x : Except ReleaseBundleError α} {v : α} :
    (hosted x : Except (ReleaseBundleHostError E) α) = .ok v ↔ x = .ok v := mapError_eq_ok

theorem BuilderProvenance.validate_eq_ok {p : BuilderProvenance} :
    p.validate sha256 = .ok () ↔ p.Valid sha256 := by
  simp only [validate, bind_eq_ok, require_eq_ok, pure_eq_ok]
  constructor
  · rintro ⟨_, ⟨h1, h2, h3, h4, h5, h6, h7, hne, hle, hdigest⟩, m, hcollect, -⟩
    obtain ⟨hvalid, hnodup⟩ := OrdMap.exists_collect.mp ⟨m, hcollect⟩
    exact ⟨⟨h1, h2, h3, h4, h5, h6, h7⟩, hne, hle, hdigest, hvalid, hnodup⟩
  · rintro ⟨⟨h1, h2, h3, h4, h5, h6, h7⟩, hne, hle, hdigest, hvalid, hnodup⟩
    obtain ⟨m, hcollect⟩ := OrdMap.exists_collect.mpr ⟨hvalid, hnodup⟩
    exact ⟨(), ⟨h1, h2, h3, h4, h5, h6, h7, hne, hle, hdigest⟩, m, hcollect, trivial⟩

theorem ExactSource.eq_of_validate {s t : ExactSource} (h : s.validate = .ok t) : t = s := by
  simp only [validate, bind_eq_ok, require_eq_ok, pure_eq_ok] at h
  obtain ⟨_, -, rfl⟩ := h
  rfl

theorem get_collect_ne_none
    (h : OrdMap.collect SbomPackage.validate (fun _ => .duplicateSbomPackage) SbomPackage.key
      b.sbomPackages = .ok m) :
    m.get key ≠ none ↔ key ∈ b.sbomPackages.map SbomPackage.key := by
  rw [Option.ne_none_iff_exists']
  simp only [(OrdMap.collect_eq_ok h).2, List.mem_map]

/-- What an accepted bundle satisfies, and what is returned for it. -/
theorem verifyReleaseBundle_eq_ok : verifyReleaseBundle sha256 verifier b required = .ok r ↔
    b.Accepted sha256 required ∧ verifier b = .ok () ∧ r = b.verified sha256 := by
  simp only [verifyReleaseBundle, bind_eq_ok, require_eq_ok, pure_eq_ok, hosted_eq_ok, forM_eq_ok,
    mapError_eq_ok]
  constructor
  · rintro ⟨_, ⟨hname, hversion, hprotocol, hane, hale, hpne, hple, hsigner, hsignature⟩,
      source, hsource, names, hnames, keys, hkeys, _, hrequired, _, hprovenance, _,
      ⟨hs, ha, hp, hdigest⟩, _, hsigned, rfl⟩
    obtain rfl := ExactSource.eq_of_validate hsource
    obtain ⟨havalid, hanodup⟩ := OrdMap.exists_collect.mp ⟨names, hnames⟩
    obtain ⟨hpvalid, hpnodup⟩ := OrdMap.exists_collect.mp ⟨keys, hkeys⟩
    refine ⟨⟨hname, hversion, ⟨hprotocol, hsigner, hsignature⟩, hane, hale, hpne, hple,
      hsource, havalid, hanodup, hpvalid, hpnodup, fun key hkey =>
        (get_collect_ne_none hkeys).mp (hrequired key hkey),
      (BuilderProvenance.validate_eq_ok sha256).mp hprovenance, ⟨hs, ha, hp⟩, hdigest⟩,
      hsigned, rfl⟩
  · rintro ⟨h, hsigned, rfl⟩
    obtain ⟨names, hnames⟩ := OrdMap.exists_collect.mpr ⟨h.artifacts, h.artifacts_nodup⟩
    obtain ⟨keys, hkeys⟩ := OrdMap.exists_collect.mpr ⟨h.packages, h.packages_nodup⟩
    exact ⟨(), ⟨h.name, h.version, h.nonzero.1, h.artifacts_ne_nil, h.artifacts_le,
      h.packages_ne_nil, h.packages_le, h.nonzero.2.1, h.nonzero.2.2⟩, b.exactSource, h.source,
      names, hnames, keys, hkeys, (), fun key hkey =>
        (get_collect_ne_none hkeys).mpr (h.complete key hkey), (),
      (BuilderProvenance.validate_eq_ok sha256).mpr h.provenance, (),
      ⟨h.bound.1, h.bound.2.1, h.bound.2.2, h.digest⟩, (), hsigned, rfl⟩

/-! ## Reordering -/

def ReleaseBundle.withLists (b : ReleaseBundle) (artifacts : List ArtifactEntry)
    (packages : List SbomPackage) (inputs : List BuildInput) : ReleaseBundle :=
  { b with
    artifacts := artifacts, sbomPackages := packages,
    provenance := { b.provenance with buildInputs := inputs } }

namespace ReleaseBundle

variable {artifacts : List ArtifactEntry} {packages : List SbomPackage} {inputs : List BuildInput}

theorem artifactSetDigest_withLists (h : artifacts.Perm b.artifacts) :
    (b.withLists artifacts packages inputs).artifactSetDigest sha256 =
      b.artifactSetDigest sha256 := by
  simp only [artifactSetDigest, artifactSetMessage, withLists]
  rw [(sortedBy_eq_iff ArtifactEntry.orderKey_injective).mpr h]

theorem sbomDigest_withLists (h : packages.Perm b.sbomPackages) :
    (b.withLists artifacts packages inputs).sbomDigest sha256 = b.sbomDigest sha256 := by
  simp only [sbomDigest, sbomMessage, withLists]
  rw [(sortedBy_eq_iff SbomPackage.orderKey_injective).mpr h]

theorem canonicalDigest_provenance_withLists (h : inputs.Perm b.provenance.buildInputs) :
    (b.withLists artifacts packages inputs).provenance.canonicalDigest sha256 =
      b.provenance.canonicalDigest sha256 := by
  simp only [BuilderProvenance.canonicalDigest, BuilderProvenance.message, withLists]
  rw [(sortedBy_eq_iff BuildInput.orderKey_injective).mpr h]

variable (hartifacts : artifacts.Perm b.artifacts)
include hartifacts

theorem canonicalDigest_withLists (hpackages : packages.Perm b.sbomPackages) :
    (b.withLists artifacts packages inputs).canonicalDigest sha256 = b.canonicalDigest sha256 := by
  have hset := @artifactSetDigest_withLists sha256 b artifacts packages inputs hartifacts
  have hsbom := @sbomDigest_withLists sha256 b artifacts packages inputs hpackages
  rw [canonicalDigest, canonicalDigest, message, message, hset, hsbom]
  rfl

theorem verified_withLists (hpackages : packages.Perm b.sbomPackages) :
    (b.withLists artifacts packages inputs).verified sha256 = b.verified sha256 := by
  rw [verified, verified, artifactSetDigest_withLists sha256 hartifacts,
    sbomDigest_withLists sha256 hpackages]
  simp only [withLists, hartifacts.length_eq, hpackages.length_eq]

theorem Accepted.withLists (hpackages : packages.Perm b.sbomPackages)
    (hinputs : inputs.Perm b.provenance.buildInputs) (h : b.Accepted sha256 required) :
    (b.withLists artifacts packages inputs).Accepted sha256 required where
  name := h.name
  version := h.version
  nonzero := h.nonzero
  artifacts_ne_nil := fun hnil => h.artifacts_ne_nil (List.Perm.nil_eq (hnil ▸ hartifacts)).symm
  artifacts_le := hartifacts.length_eq.trans_le h.artifacts_le
  packages_ne_nil := fun hnil => h.packages_ne_nil (List.Perm.nil_eq (hnil ▸ hpackages)).symm
  packages_le := hpackages.length_eq.trans_le h.packages_le
  source := h.source
  artifacts := fun a ha => h.artifacts a (hartifacts.mem_iff.mp ha)
  artifacts_nodup := (hartifacts.map _).nodup_iff.mpr h.artifacts_nodup
  packages := fun p hp => h.packages p (hpackages.mem_iff.mp hp)
  packages_nodup := (hpackages.map _).nodup_iff.mpr h.packages_nodup
  complete := fun key hkey => (hpackages.map _).mem_iff.mpr (h.complete key hkey)
  provenance :=
    { nonzero := h.provenance.nonzero
      inputs_ne_nil := fun hnil =>
        h.provenance.inputs_ne_nil (List.Perm.nil_eq (hnil ▸ hinputs)).symm
      inputs_le := hinputs.length_eq.trans_le h.provenance.inputs_le
      digest := h.provenance.digest.trans (canonicalDigest_provenance_withLists sha256 hinputs).symm
      inputs := fun i hi => h.provenance.inputs i (hinputs.mem_iff.mp hi)
      inputs_nodup := (hinputs.map _).nodup_iff.mpr h.provenance.inputs_nodup }
  bound := ⟨h.bound.1, h.bound.2.1.trans (artifactSetDigest_withLists sha256 hartifacts).symm,
    h.bound.2.2.trans (sbomDigest_withLists sha256 hpackages).symm⟩
  digest := h.digest.trans (canonicalDigest_withLists sha256 hartifacts hpackages).symm

theorem accepted_withLists
    (hpackages : packages.Perm b.sbomPackages) (hinputs : inputs.Perm b.provenance.buildInputs) :
    (b.withLists artifacts packages inputs).Accepted sha256 required ↔
      b.Accepted sha256 required := by
  refine ⟨fun h => ?_, Accepted.withLists sha256 hartifacts hpackages hinputs⟩
  exact @Accepted.withLists sha256 _ (b.withLists artifacts packages inputs) b.artifacts
    b.sbomPackages b.provenance.buildInputs hartifacts.symm hpackages.symm hinputs.symm h

end ReleaseBundle

/-! ## Binding -/

/-- Equal in every field that the digest is over, the lists up to order. -/
structure SameRelease (a b : ReleaseBundle) : Prop where
  name : a.bundleName = b.bundleName
  version : a.releaseVersion = b.releaseVersion
  protocol : a.protocolDigest = b.protocolDigest
  source : a.exactSource = b.exactSource
  artifacts : a.artifacts.Perm b.artifacts
  packages : a.sbomPackages.Perm b.sbomPackages
  inputs : a.provenance.buildInputs.Perm b.provenance.buildInputs
  provenance : a.provenance = { b.provenance with buildInputs := a.provenance.buildInputs }
  previous : a.previousBundleDigest = b.previousBundleDigest
  signer : a.signerIdentityDigest = b.signerIdentityDigest

def ReleaseBundle.messages (b : ReleaseBundle) : List Bytes :=
  [b.message sha256, b.exactSource.message, b.artifactSetMessage sha256, b.sbomMessage sha256,
    b.provenance.message sha256] ++ b.artifacts.map ArtifactEntry.message ++
    b.sbomPackages.map SbomPackage.message ++ b.provenance.buildInputs.map BuildInput.message

/-- No two different messages of the two bundles have one digest. -/
def CollisionFree (a b : ReleaseBundle) : Prop :=
  Set.InjOn sha256 {m | m ∈ a.messages sha256 ++ b.messages sha256}

variable {sha256}

theorem CollisionFree.eq (hclean : CollisionFree sha256 a b) (hm : m ∈ a.messages sha256)
    (hm' : m' ∈ b.messages sha256) (h : sha256 m = sha256 m') : m = m' :=
  hclean (List.mem_append_left _ hm) (List.mem_append_right _ hm') h

theorem subset_messages : b.artifacts.map ArtifactEntry.message ⊆ b.messages sha256 ∧
    b.sbomPackages.map SbomPackage.message ⊆ b.messages sha256 ∧
    b.provenance.buildInputs.map BuildInput.message ⊆ b.messages sha256 := by
  refine ⟨fun m hm => ?_, fun m hm => ?_, fun m hm => ?_⟩ <;>
    simp only [ReleaseBundle.messages, List.mem_append, hm, true_or, or_true]

/-- The concatenated digests of two sorted lists of records agree when the lists agree up to
order. -/
theorem digests_eq_iff (hclean : CollisionFree sha256 a b) {α K : Type} [LinearOrder K]
    {key : α → K} {message : α → Bytes} {l l' : List α} (hkey : key.Injective)
    (hl : l.map message ⊆ a.messages sha256) (hl' : l'.map message ⊆ b.messages sha256)
    (hinj : ∀ x ∈ l, ∀ y ∈ l', message x = message y → x = y) :
    ((sortedBy key l).flatMap fun x => (sha256 (message x)).bytes) =
      ((sortedBy key l').flatMap fun x => (sha256 (message x)).bytes) ↔ l.Perm l' :=
  flatMap_sortedBy_eq_iff (w := 32) hkey (by decide) (fun _ => Hash.size_eq _) fun x hx y hy h =>
    hinj x hx y hy (hclean.eq (hl (List.mem_map_of_mem hx)) (hl' (List.mem_map_of_mem hy))
      (Hash.ext_bytes h))

/-- The same for the digest of the concatenation. -/
theorem setDigest_eq_iff (hclean : CollisionFree sha256 a b)
    (hx : start ++ x ∈ a.messages sha256) (hy : start ++ y ∈ b.messages sha256) :
    sha256 (start ++ x) = sha256 (start ++ y) ↔ x = y := by
  constructor
  · exact fun h => List.append_cancel_left (hclean.eq hx hy h)
  · rintro rfl
    rfl

theorem exactSource_eq_iff (hclean : CollisionFree sha256 a b) :
    a.exactSource.canonicalDigest sha256 = b.exactSource.canonicalDigest sha256 ↔
      a.exactSource = b.exactSource := by
  constructor
  · intro h
    exact ExactSource.message_inj (hclean.eq (by simp [ReleaseBundle.messages])
      (by simp [ReleaseBundle.messages]) h)
  · intro h
    rw [h]

section
variable (hclean : CollisionFree sha256 a b) {required' : List (Bytes × Bytes)}
  (ha : a.Accepted sha256 required) (hb : b.Accepted sha256 required')

include hclean ha hb

theorem artifactSetDigest_eq_iff :
    a.artifactSetDigest sha256 = b.artifactSetDigest sha256 ↔ a.artifacts.Perm b.artifacts := by
  rw [← digests_eq_iff hclean ArtifactEntry.orderKey_injective subset_messages.1 subset_messages.1
    fun x hx y hy => ArtifactEntry.message_inj (ha.artifacts x hx) (hb.artifacts y hy)]
  exact setDigest_eq_iff hclean (by simp [ReleaseBundle.messages, ReleaseBundle.artifactSetMessage])
    (by simp [ReleaseBundle.messages, ReleaseBundle.artifactSetMessage])

theorem sbomDigest_eq_iff :
    a.sbomDigest sha256 = b.sbomDigest sha256 ↔ a.sbomPackages.Perm b.sbomPackages := by
  rw [← digests_eq_iff hclean SbomPackage.orderKey_injective subset_messages.2.1 subset_messages.2.1
    fun x hx y hy => SbomPackage.message_inj (ha.packages x hx) (hb.packages y hy)]
  exact setDigest_eq_iff hclean (by simp [ReleaseBundle.messages, ReleaseBundle.sbomMessage])
    (by simp [ReleaseBundle.messages, ReleaseBundle.sbomMessage])

theorem provenance_of_digest (h : a.provenance.provenanceDigest = b.provenance.provenanceDigest) :
    a.provenance.buildInputs.Perm b.provenance.buildInputs ∧
      a.provenance = { b.provenance with buildInputs := a.provenance.buildInputs } := by
  have hentries : ∀ x ∈ a.provenance.buildInputs, ∀ y ∈ b.provenance.buildInputs,
      x.message = y.message → x = y := fun x hx y hy =>
    BuildInput.message_inj (ha.provenance.inputs x hx) (hb.provenance.inputs y hy)
  have hdigest : a.provenance.canonicalDigest sha256 = b.provenance.canonicalDigest sha256 := by
    rw [← ha.provenance.digest, ← hb.provenance.digest, h]
  have hmessage : a.provenance.message sha256 = b.provenance.message sha256 :=
    hclean.eq (by simp [ReleaseBundle.messages]) (by simp [ReleaseBundle.messages]) hdigest
  simp only [BuilderProvenance.message] at hmessage
  -- The fields have fixed widths; only the middle part does not.
  obtain ⟨hmessage, hsbom⟩ := List.append_inj' hmessage (by simp [Hash.size_eq])
  obtain ⟨hmessage, hartifacts⟩ := List.append_inj' hmessage (by simp [Hash.size_eq])
  obtain ⟨hmessage, hinputs⟩ := List.append_inj hmessage (by simp [Hash.size_eq])
  obtain ⟨hmessage, -⟩ := List.append_inj' hmessage (by simp)
  obtain ⟨hmessage, hsource⟩ := List.append_inj' hmessage (by simp [Hash.size_eq])
  obtain ⟨hmessage, henvironment⟩ := List.append_inj' hmessage (by simp [Hash.size_eq])
  obtain ⟨hmessage, hrun⟩ := List.append_inj' hmessage (by simp [Hash.size_eq])
  obtain ⟨hmessage, hworkflow⟩ := List.append_inj' hmessage (by simp [Hash.size_eq])
  obtain ⟨-, hbuilder⟩ := List.append_inj' hmessage (by simp [Hash.size_eq])
  refine ⟨(digests_eq_iff hclean BuildInput.orderKey_injective subset_messages.2.2
    subset_messages.2.2 hentries).mp hinputs, ?_⟩
  cases hpa : a.provenance
  cases hpb : b.provenance
  simp only [hpa, hpb] at *
  simp only [BuilderProvenance.mk.injEq, true_and]
  exact ⟨Hash.ext_bytes hbuilder, Hash.ext_bytes hworkflow, Hash.ext_bytes hrun,
    Hash.ext_bytes henvironment, Hash.ext_bytes hsource, Hash.ext_bytes hartifacts,
    Hash.ext_bytes hsbom, h⟩

/-- Equal digests give equal bundles, as far as the predecessors tell whether they are there. -/
theorem sameRelease_iff (h : a.bundleDigest = b.bundleDigest) : SameRelease a b ↔
    ¬ (a.previousBundleDigest = none ∧ b.previousBundleDigest = some .zero) ∧
      ¬ (a.previousBundleDigest = some .zero ∧ b.previousBundleDigest = none) := by
  have hmessage : a.message sha256 = b.message sha256 :=
    hclean.eq (by simp [ReleaseBundle.messages]) (by simp [ReleaseBundle.messages])
      (ha.digest.symm.trans (h.trans hb.digest))
  have hparts := framed_inj (by decide)
    (by simp [ha.name.short le_rfl, ha.version.short (by decide)])
    (by simp [hb.name.short le_rfl, hb.version.short (by decide)]) hmessage
  simp only [List.cons.injEq, and_true] at hparts
  obtain ⟨hname, hversion, hprotocol, hsource, hartifacts, hpackages, hprovenance,
      hprevious, hsigner⟩ :=
    hparts
  have hprovenance := provenance_of_digest hclean ha hb (Hash.ext_bytes hprovenance)
  have hprevious := Hash.ext_bytes hprevious
  constructor
  · intro hsame
    rw [hsame.previous]
    have hdistinct : ¬ (b.previousBundleDigest = none ∧ b.previousBundleDigest = some .zero) := by
      rintro ⟨hnone, hzero⟩
      cases hnone.symm.trans hzero
    exact ⟨hdistinct, fun h => hdistinct h.symm⟩
  · rintro ⟨hab, hba⟩
    refine ⟨hname, hversion, Hash.ext_bytes hprotocol,
      (exactSource_eq_iff hclean).mp (Hash.ext_bytes hsource),
      (artifactSetDigest_eq_iff hclean ha hb).mp (Hash.ext_bytes hartifacts),
      (sbomDigest_eq_iff hclean ha hb).mp (Hash.ext_bytes hpackages), hprovenance.1,
      hprovenance.2, ?_, Hash.ext_bytes hsigner⟩
    cases hpa : a.previousBundleDigest with
    | none =>
      cases hpb : b.previousBundleDigest with
      | none => rfl
      | some previous =>
        rw [hpa, hpb] at hprevious
        exact absurd ⟨hpa, hpb.trans (congrArg some hprevious.symm)⟩ hab
    | some previous =>
      cases hpb : b.previousBundleDigest with
      | none =>
        rw [hpa, hpb] at hprevious
        exact absurd ⟨hpa.trans (congrArg some hprevious), hpb⟩ hba
      | some previous' =>
        rw [hpa, hpb] at hprevious
        exact congrArg some hprevious

end

theorem compareIndependentBuilds_eq_match :
    compareIndependentBuilds first second = .match_ ↔
      first.exactSourceDigest = second.exactSourceDigest ∧
      first.artifactSetDigest = second.artifactSetDigest ∧ first.sbomDigest = second.sbomDigest ∧
      first.artifactCount = second.artifactCount ∧ first.packageCount = second.packageCount := by
  unfold compareIndependentBuilds
  constructor
  · intro h
    by_contra hdiffer
    rw [if_neg hdiffer] at h
    cases h
  · intro h
    rw [if_pos h]

/-- A release digest binds the bundle, unless one bundle has no predecessor and the other has the
zero digest as its predecessor; the order of the three lists never matters; and the comparison of
two builds decides whether their sources, artifacts and packages agree. -/
theorem release_digest_binds_iff (sha256 : Bytes → Hash) (a b : ReleaseBundle)
    (hclean : CollisionFree sha256 a b) {E E' : Type} (verifier : ReleaseBundle → Except E Unit)
    (verifier' : ReleaseBundle → Except E' Unit) (required required' : List (Bytes × Bytes)) :
    (∀ r r', verifyReleaseBundle sha256 verifier a required = .ok r →
      verifyReleaseBundle sha256 verifier' b required' = .ok r' →
      (a.bundleDigest = b.bundleDigest → (SameRelease a b ↔
        ¬ (a.previousBundleDigest = none ∧ b.previousBundleDigest = some .zero) ∧
        ¬ (a.previousBundleDigest = some .zero ∧ b.previousBundleDigest = none))) ∧
      (compareIndependentBuilds r r' = .match_ ↔ a.exactSource = b.exactSource ∧
        a.artifacts.Perm b.artifacts ∧ a.sbomPackages.Perm b.sbomPackages)) ∧
    ((∀ x y : ReleaseBundle, x.bundleDigest = y.bundleDigest →
        x.signerIdentityDigest = y.signerIdentityDigest → x.signatureDigest = y.signatureDigest →
        verifier x = verifier y) →
      ∀ artifacts packages inputs, artifacts.Perm a.artifacts → packages.Perm a.sbomPackages →
        inputs.Perm a.provenance.buildInputs →
        (verifyReleaseBundle sha256 verifier (a.withLists artifacts packages inputs)
          required).toOption = (verifyReleaseBundle sha256 verifier a required).toOption) := by
  refine ⟨fun r r' hr hr' => ?_,
    fun hverifier artifacts packages inputs hartifacts hpackages hinputs => ?_⟩
  · obtain ⟨ha, -, rfl⟩ := (verifyReleaseBundle_eq_ok sha256).mp hr
    obtain ⟨hb, -, rfl⟩ := (verifyReleaseBundle_eq_ok sha256).mp hr'
    refine ⟨sameRelease_iff hclean ha hb, ?_⟩
    rw [compareIndependentBuilds_eq_match]
    simp only [ReleaseBundle.verified]
    rw [exactSource_eq_iff hclean, artifactSetDigest_eq_iff hclean ha hb,
      sbomDigest_eq_iff hclean ha hb]
    constructor
    · rintro ⟨hsource, hartifacts, hpackages, -⟩
      exact ⟨hsource, hartifacts, hpackages⟩
    · rintro ⟨hsource, hartifacts, hpackages⟩
      exact ⟨hsource, hartifacts, hpackages, congrArg _ hartifacts.length_eq,
        congrArg _ hpackages.length_eq⟩
  · refine Option.ext fun r => ?_
    rw [toOption_eq_some, toOption_eq_some, verifyReleaseBundle_eq_ok, verifyReleaseBundle_eq_ok,
      ReleaseBundle.accepted_withLists sha256 hartifacts hpackages hinputs,
      ReleaseBundle.verified_withLists sha256 hartifacts hpackages,
      hverifier (a.withLists artifacts packages inputs) a rfl rfl rfl]

end

def sampleArtifact (name : UInt8) : ArtifactEntry :=
  ⟨[name], Bytes.ofString "application/x", 1, .ofByte 1, true, .ofByte 2, .ofByte 3⟩

def samplePackage : SbomPackage :=
  ⟨Bytes.ofString "sha2", Bytes.ofString "0.10", .ofByte 4, .ofByte 5, Bytes.ofString "MIT", true⟩

def sampleSource : ExactSource :=
  ⟨.ofByte 6, .ofByte 7, .ofByte 8, .ofByte 9, .ofByte 10, .ofByte 11, false⟩

/-- A bundle over the given artifacts, with its digests filled in. -/
def sampleBundle (artifacts : List ArtifactEntry) (previous : Option Hash) : ReleaseBundle :=
  let bundle : ReleaseBundle := ⟨Bytes.ofString "node", Bytes.ofString "1.0", .ofByte 12,
    sampleSource, artifacts, [samplePackage], ⟨.ofByte 13, .ofByte 14, .ofByte 15,
      .ofByte 16, .zero,
    [⟨Bytes.ofString "lock", .ofByte 17, .ofByte 18⟩], .zero, .zero, .zero⟩, previous, .ofByte 19,
    .ofByte 20, .zero⟩
  let provenance := { bundle.provenance with
    exactSourceDigest := sampleSource.canonicalDigest Hash.checksum
    artifactSetDigest := bundle.artifactSetDigest Hash.checksum
    sbomDigest := bundle.sbomDigest Hash.checksum }
  let bundle := { bundle with
    provenance := { provenance with provenanceDigest := provenance.canonicalDigest Hash.checksum } }
  { bundle with bundleDigest := bundle.canonicalDigest Hash.checksum }

def anySignature (_ : ReleaseBundle) : Except Unit Unit := .ok ()

/-- Two bundles that list their artifacts in another order. -/
theorem sample_release_digest_binds :
    let a := sampleBundle [sampleArtifact 65, sampleArtifact 66] none
    let b := sampleBundle [sampleArtifact 66, sampleArtifact 65] none
    SameRelease a b ∧ compareIndependentBuilds (a.verified Hash.checksum)
      (b.verified Hash.checksum) = .match_ := by
  intro a b
  have hclean : CollisionFree Hash.checksum a b := by
    have hdigests : ∀ m ∈ a.messages Hash.checksum ++ b.messages Hash.checksum,
        ∀ m' ∈ a.messages Hash.checksum ++ b.messages Hash.checksum,
        Hash.checksum m = Hash.checksum m' → m = m' := by decide +kernel
    exact fun m hm m' hm' => hdigests m hm m' hm'
  have ha : verifyReleaseBundle Hash.checksum anySignature a [] =
      .ok (a.verified Hash.checksum) := by
    decide +kernel
  have hb : verifyReleaseBundle Hash.checksum anySignature b [] =
      .ok (b.verified Hash.checksum) := by
    decide +kernel
  obtain ⟨hbinds, hcompare⟩ := (release_digest_binds_iff Hash.checksum a b hclean anySignature
    anySignature [] []).1 _ _ ha hb
  refine ⟨(hbinds (by decide +kernel)).mpr (by decide +kernel), hcompare.mpr ⟨rfl, ?_, .refl _⟩⟩
  exact .swap _ _ _

/-- A bundle without a predecessor and one whose predecessor is the zero digest are both accepted,
under one digest. -/
theorem zero_predecessor_not_bound :
    let a := sampleBundle [sampleArtifact 65] none
    let b := sampleBundle [sampleArtifact 65] (some .zero)
    CollisionFree Hash.checksum a b ∧
    verifyReleaseBundle Hash.checksum anySignature a [] = .ok (a.verified Hash.checksum) ∧
    verifyReleaseBundle Hash.checksum anySignature b [] = .ok (b.verified Hash.checksum) ∧
    a.bundleDigest = b.bundleDigest ∧ a.previousBundleDigest ≠ b.previousBundleDigest := by
  intro a b
  have hdigests : ∀ m ∈ a.messages Hash.checksum ++ b.messages Hash.checksum,
      ∀ m' ∈ a.messages Hash.checksum ++ b.messages Hash.checksum,
      Hash.checksum m = Hash.checksum m' → m = m' := by decide +kernel
  refine ⟨fun m hm m' hm' => hdigests m hm m' hm', ?_, ?_, ?_, ?_⟩
  · decide +kernel
  · decide +kernel
  · decide +kernel
  · decide

end Trillionnium.Release
