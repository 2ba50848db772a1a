import Trillionnium.DataAvailability.Types
import Trillionnium.Lib.Quorum

/-!
# Accountable safety

Two certificates for different batches at one sequence number of an author can only come about by
equivocation: members of more than a third of the weight attested in both, and the two attestations
of each of them are evidence that the kernel accepts (`accountable_safety`).
-/

namespace Trillionnium.DataAvailability

open Lib Pon
open Mvcc (u16 hash32)

variable {crypto : Crypto}

/-! ## Digests -/

theorem digestValue_eq_ok {α : Type} {c : Mvcc.Borsh α} {value : α} {hash : Hash} :
    digestValue crypto domain c value = .ok hash ↔
      (Bytes.ofString domain ≠ [] ∧ (Bytes.ofString domain).all (· < 128)) ∧
      (Bytes.ofString domain).length < 2 ^ 32 ∧ ∃ encoded, c.encode value = some encoded ∧
        crypto.sha256 (digestMessage domain encoded) = hash := by
  simp only [digestValue, digestEncoded, canonicalBytes, bind_eq_ok, getOr_eq_ok, require_eq_ok,
    pure_eq_ok, exists_const]
  constructor
  · rintro ⟨encoded, henc, hascii, hlen, heq⟩
    exact ⟨hascii, hlen, encoded, henc, heq⟩
  · rintro ⟨hascii, hlen, encoded, henc, heq⟩
    exact ⟨encoded, henc, hascii, hlen, heq⟩

/-- A value that can be written has a digest. -/
theorem exists_digestValue {α : Type} {c : Mvcc.Borsh α} {value : α}
    (hascii : Bytes.ofString domain ≠ [] ∧ (Bytes.ofString domain).all (· < 128))
    (hlen : (Bytes.ofString domain).length < 2 ^ 32)
    (h : ∃ encoded, c.encode value = some encoded) :
    ∃ hash, digestValue crypto domain c value = .ok hash := by
  obtain ⟨encoded, henc⟩ := h
  exact ⟨_, digestValue_eq_ok.mpr ⟨hascii, hlen, encoded, henc, rfl⟩⟩

theorem digestMessage_inj (h : digestMessage domain x = digestMessage domain y) : x = y :=
  List.append_cancel_left h

/-! ## Committees -/

theorem foldlM_memberTotal {members : List DaMember}
    (h : members.foldlM (MemberTotal.add crypto) s = .ok t) :
    (∀ value ∈ s.prior, ∀ m ∈ members, value < m.definitionHash) ∧
      members.Pairwise (fun a b => a.definitionHash < b.definitionHash) ∧
      t.total.toNat = s.total.toNat + (members.map fun m => m.weight.toNat).sum ∧
      ∀ m ∈ members, m.validate crypto = .ok () := by
  induction members generalizing s with
  | nil =>
    obtain rfl : s = t := Except.ok.inj h
    simp
  | cons m members ih =>
    simp only [List.foldlM_cons, MemberTotal.add, bind_assoc, bind_eq_ok, require_eq_ok, pure_bind,
      checkedAdd_eq_ok] at h
    obtain ⟨_, hvalid, _, ⟨hprior, _⟩, total, htotal, hrest⟩ := h
    obtain ⟨hbelow, hsorted, hsum, hvalids⟩ := ih hrest
    have hm := hbelow m.definitionHash rfl
    refine ⟨fun value hvalue => ?_, List.pairwise_cons.mpr ⟨hm, hsorted⟩, ?_,
      List.forall_mem_cons.mpr ⟨hvalid, hvalids⟩⟩
    · refine List.forall_mem_cons.mpr ⟨hprior value hvalue, fun m' hm' => ?_⟩
      exact lt_trans (hprior value hvalue) (hm m' hm')
    · rw [hsum, htotal, List.map_cons, List.sum_cons, Nat.add_assoc]

def DaCommitteeDescriptor.totalWeight (committee : DaCommitteeDescriptor) : Nat :=
  (committee.members.map fun m => m.weight.toNat).sum

/-- What is known of a committee that was accepted. -/
structure Accepted (crypto : Crypto) (committee : DaCommitteeDescriptor) : Prop where
  keys : (committee.members.map DaMember.definitionHash).Nodup
  members : ∀ m ∈ committee.members, m.validate crypto = .ok ()
  threshold : committee.thresholdWeight.toNat = committee.totalWeight * 2 / 3 + 1

theorem accepted_of_validate {committee : DaCommitteeDescriptor}
    (h : committee.validate crypto = .ok ()) : Accepted crypto committee := by
  simp only [DaCommitteeDescriptor.validate, DaCommitteeDescriptor.quorum, checkedMemberTotal,
    bind_assoc, pure_bind, bind_eq_ok, require_eq_ok, checkedMul_eq_ok, checkedAdd_eq_ok] at h
  obtain ⟨_, _, _, _, _, _, _, _, s, hs, doubled, hdoubled, expected, hexpected, hthreshold, _⟩ := h
  obtain ⟨-, hsorted, htotal, hmembers⟩ := foldlM_memberTotal hs
  have htotal : s.total.toNat = committee.totalWeight := by
    simpa [DaCommitteeDescriptor.totalWeight] using htotal
  refine ⟨(List.pairwise_map.mpr hsorted).imp ne_of_lt, hmembers, ?_⟩
  have hdiv : (doubled / 3#128).toNat = doubled.toNat / 3 := by
    rw [BitVec.toNat_udiv]
    rfl
  have htwo : (2 : U128).toNat = 2 := rfl
  have hone : (1 : U128).toNat = 1 := rfl
  rw [hthreshold, hexpected, hone, ← htotal, ← htwo, ← hdoubled]
  exact congrArg (· + 1) hdiv

/-! ## Certificates -/

/-- The attestation is for the batch of the envelope. -/
structure Binds (body : DaAttestationBody) (envelope : DaBatchEnvelope) (batchId : Hash) :
    Prop where
  context : body.context = envelope.context
  namespaceTag : body.namespaceTag = envelope.namespaceTag
  epoch : body.epoch = envelope.epoch
  batchId : body.batchId = batchId
  authorId : body.authorId = envelope.authorId
  authorSequence : body.authorSequence = envelope.authorSequence

variable {committee : DaCommitteeDescriptor} {envelope : DaBatchEnvelope} {batchId : Hash}

theorem foldlM_addSigner {attestations : List DaAttestation} (h : attestations.foldlM
      (AvailabilityCertificate.addSigner crypto committee envelope batchId) s = .ok t) :
    (∀ a ∈ attestations, a.verify crypto committee = .ok () ∧ Binds a.body envelope batchId) ∧
      (∀ value ∈ s.prior, ∀ a ∈ attestations, value < a.body.attestorId) ∧
      attestations.Pairwise (fun a b => a.body.attestorId < b.body.attestorId) ∧
      ∃ signers, List.Forall₂ (fun id m => committee.member id = some m)
          (attestations.map fun a => a.body.attestorId) signers ∧
        t.weight.toNat = s.weight.toNat + (signers.map fun m => m.weight.toNat).sum := by
  induction attestations generalizing s with
  | nil =>
    obtain rfl : s = t := Except.ok.inj h
    exact ⟨by simp, by simp, .nil, [], .nil, by simp⟩
  | cons a attestations ih =>
    simp only [List.foldlM_cons, AvailabilityCertificate.addSigner, bind_assoc, bind_eq_ok,
      require_eq_ok, pure_bind, getOr_eq_ok, checkedAdd_eq_ok] at h
    obtain ⟨_, hverify, _, ⟨hprior, hcontext, hnamespace, hepoch, -, hbatch, -, -, -, hauthor,
      hsequence⟩, m, hm, weight, hweight, hrest⟩ := h
    obtain ⟨hall, hbelow, hsorted, signers, hfound, hsum⟩ := ih hrest
    have ha := hbelow a.body.attestorId rfl
    refine ⟨List.forall_mem_cons.mpr ⟨⟨hverify, hcontext, hnamespace, hepoch, hbatch, hauthor,
      hsequence⟩, hall⟩, fun value hvalue => ?_, List.pairwise_cons.mpr ⟨ha, hsorted⟩,
      m :: signers, .cons hm hfound, ?_⟩
    · refine List.forall_mem_cons.mpr ⟨hprior value hvalue, fun b hb => ?_⟩
      exact lt_trans (hprior value hvalue) (ha b hb)
    · rw [hsum, hweight, List.map_cons, List.sum_cons, Nat.add_assoc]

def AvailabilityCertificate.attestedBy (certificate : AvailabilityCertificate) (m : DaMember) :
    Bool := m.definitionHash ∈ certificate.attestations.map fun a => a.body.attestorId

/-- What is known of a certificate that verified. -/
structure Certified (crypto : Crypto) (committee : DaCommitteeDescriptor)
    (certificate : AvailabilityCertificate) (batchId : Hash) : Prop where
  identified : certificate.envelope.batchId crypto = .ok batchId
  context : certificate.envelope.context = committee.context
  epoch : certificate.envelope.epoch = committee.epoch
  namespaceTag : certificate.envelope.namespaceTag = transactionBatchNamespace
  verified : ∀ a ∈ certificate.attestations, a.verify crypto committee = .ok ()
  binds : ∀ a ∈ certificate.attestations, Binds a.body certificate.envelope batchId
  written : ∃ x, AvailabilityCertificateBody.code.encode certificate.body = some x
  quorum : committee.thresholdWeight.toNat ≤
    weightOf (fun m => m.weight.toNat) certificate.attestedBy committee.members

variable {certificate : AvailabilityCertificate}

theorem certified_of_verify (hc : Accepted crypto committee)
    (h : certificate.verify crypto committee = .ok ()) :
    ∃ batchId, Certified crypto committee certificate batchId := by
  simp only [AvailabilityCertificate.verify, AvailabilityCertificate.build, bind_assoc, bind_eq_ok,
    require_eq_ok, pure_bind] at h
  obtain ⟨_, _, _, _, _, ⟨hcontext, hepoch⟩, _, _, _, ⟨-, hnamespace⟩, _, _, _, _, batchId,
    hbatch, t, ht, _, hweight, id, hid, hcert⟩ := h
  obtain ⟨hall, -, hsorted, signers, hfound, hsum⟩ := foldlM_addSigner ht
  obtain ⟨-, -, x, hx, -⟩ := digestValue_eq_ok.mp hid
  refine ⟨batchId, hbatch, hcontext, hepoch, hnamespace, fun a ha => (hall a ha).1,
    fun a ha => (hall a ha).2, ⟨x, ?_⟩, ?_⟩
  · exact congrArg AvailabilityCertificate.body hcert ▸ hx
  · have hids : (certificate.attestations.map fun a => a.body.attestorId).Nodup :=
      (List.pairwise_map.mpr hsorted).imp ne_of_lt
    have hfound := weight_found (fun m => m.weight.toNat) hc.keys hids hfound
    calc committee.thresholdWeight.toNat ≤ t.weight.toNat := BitVec.le_def.mp hweight
      _ = (signers.map fun m => m.weight.toNat).sum := by rw [hsum]; simp
      _ = _ := hfound

theorem Certified.attestation_written (h : Certified crypto committee certificate batchId) :
    ∀ a ∈ certificate.attestations, ∃ x, DaAttestation.code.encode a = some x := by
  have hbody := h.written
  simp only [AvailabilityCertificateBody.code, Code.record, Code.through, Code.pair_isSome] at hbody
  obtain ⟨-, -, -, -, -, -, -, hattestations⟩ := hbody
  exact Code.isSome_of_vec hattestations

/-! ## Evidence -/

variable {a b : DaAttestation}

theorem exists_conflictCoordinate (crypto : Crypto)
    (h : ∃ x, DaAttestation.code.encode a = some x) :
    ∃ hash, a.body.conflictCoordinate crypto = .ok hash := by
  simp only [DaAttestation.code, DaAttestationBody.code, Code.record, Code.through,
    Code.pair_isSome] at h
  obtain ⟨⟨-, hcontext, hnamespace, hepoch, -, -, -, -, -, hattestor, hauthor, hsequence, -⟩,
    -⟩ := h
  refine exists_digestValue (by decide) (by decide) ?_
  simp only [coordinateCode, DaAttestationBody.coordinate, Code.pair_isSome]
  exact ⟨hcontext, hnamespace, hepoch, hattestor, hauthor, hsequence⟩

/-- Two attestations that conflict make the same evidence in either order. -/
theorem ofAttestations_ordered (ha : a.verify crypto committee = .ok ())
    (hb : b.verify crypto committee = .ok ()) (hcoordinate : a.body.coordinate = b.body.coordinate)
    (hbatch : a.body.batchId ≠ b.body.batchId) (hlt : a.attestationId < b.attestationId)
    (hwa : ∃ x, DaAttestation.code.encode a = some x)
    (hwb : ∃ x, DaAttestation.code.encode b = some x) :
    ∃ id, AttestorEquivocationEvidence.ofAttestations crypto committee a b = .ok ⟨1, a, b, id⟩ ∧
      AttestorEquivocationEvidence.ofAttestations crypto committee b a = .ok ⟨1, a, b, id⟩ := by
  obtain ⟨coordinate, hca⟩ := exists_conflictCoordinate crypto hwa
  have hcb : b.body.conflictCoordinate crypto = .ok coordinate := by
    rw [← hca, DaAttestationBody.conflictCoordinate, DaAttestationBody.conflictCoordinate,
      hcoordinate]
  obtain ⟨id, hid⟩ : ∃ id, digestValue crypto
      "trnm.portable.v2.da-withholding-evidence.candidate.v1"
      (u16.pair <| DaAttestation.code.pair DaAttestation.code) (1, a, b) = .ok id :=
    exists_digestValue (by decide) (by decide)
      (Code.pair_isSome.mpr ⟨⟨_, rfl⟩, Code.pair_isSome.mpr ⟨hwa, hwb⟩⟩)
  refine ⟨id, ?_, ?_⟩
  · simp only [AttestorEquivocationEvidence.ofAttestations, bind_eq_ok, require_eq_ok, pure_eq_ok]
    refine ⟨(), ha, (), hb, _, hca, _, hcb, (), ⟨rfl, hbatch, hlt.ne⟩, ?_⟩
    rw [if_pos hlt.le]
    exact ⟨id, hid, rfl⟩
  · simp only [AttestorEquivocationEvidence.ofAttestations, bind_eq_ok, require_eq_ok, pure_eq_ok]
    refine ⟨(), hb, (), ha, _, hcb, _, hca, (), ⟨rfl, hbatch.symm, hlt.ne'⟩, ?_⟩
    rw [if_neg (not_le_of_gt hlt)]
    exact ⟨id, hid, rfl⟩

theorem exists_evidence (ha : a.verify crypto committee = .ok ())
    (hb : b.verify crypto committee = .ok ()) (hcoordinate : a.body.coordinate = b.body.coordinate)
    (hbatch : a.body.batchId ≠ b.body.batchId) (hid : a.attestationId ≠ b.attestationId)
    (hwa : ∃ x, DaAttestation.code.encode a = some x)
    (hwb : ∃ x, DaAttestation.code.encode b = some x) :
    ∃ evidence, AttestorEquivocationEvidence.ofAttestations crypto committee a b = .ok evidence ∧
      evidence.verify crypto committee = .ok () := by
  have hverify : ∀ {evidence : AttestorEquivocationEvidence},
      AttestorEquivocationEvidence.ofAttestations crypto committee evidence.left evidence.right =
        .ok evidence → evidence.verify crypto committee = .ok () := by
    intro evidence h
    simp only [AttestorEquivocationEvidence.verify, bind_eq_ok, require_eq_ok]
    exact ⟨evidence, h, rfl⟩
  rcases lt_or_gt_of_ne hid with hlt | hlt
  · obtain ⟨id, hab, -⟩ := ofAttestations_ordered ha hb hcoordinate hbatch hlt hwa hwb
    exact ⟨_, hab, hverify hab⟩
  · obtain ⟨id, hba, hab⟩ := ofAttestations_ordered hb ha hcoordinate.symm hbatch.symm hlt hwb hwa
    exact ⟨_, hab, hverify hba⟩

/-! ## The theorem -/

/-- The bytes hashed for the identifiers of the attestations. -/
def attestationMessages (certificate : AvailabilityCertificate) : List Bytes :=
  certificate.attestations.filterMap fun a =>
    (DaAttestationBody.code.encode a.body).map (digestMessage "trnm.portable.v2.da-attestation.v1")

theorem mem_attestationMessages
    (ha : a ∈ certificate.attestations) (hx : DaAttestationBody.code.encode a.body = some x) :
    digestMessage "trnm.portable.v2.da-attestation.v1" x ∈ attestationMessages certificate :=
  List.mem_filterMap.mpr ⟨a, ha, by rw [hx]; rfl⟩

/-- Verified attestations with different bodies have different identifiers, where the hash has no
collision. -/
theorem attestationId_ne {messages : Set Bytes} (hfree : Set.InjOn crypto.sha256 messages)
    (ha : a.verify crypto committee = .ok ()) (hb : b.verify crypto committee = .ok ())
    (hma : ∀ x, DaAttestationBody.code.encode a.body = some x →
      digestMessage "trnm.portable.v2.da-attestation.v1" x ∈ messages)
    (hmb : ∀ x, DaAttestationBody.code.encode b.body = some x →
      digestMessage "trnm.portable.v2.da-attestation.v1" x ∈ messages)
    (hne : a.body ≠ b.body) : a.attestationId ≠ b.attestationId := by
  have hid : ∀ {a : DaAttestation}, a.verify crypto committee = .ok () →
      a.body.id crypto = .ok a.attestationId := by
    intro a ha
    simp only [DaAttestation.verify, bind_eq_ok, require_eq_ok] at ha
    obtain ⟨_, _, _, _, id, hid, _, heq, _⟩ := ha
    rw [heq, hid]
  obtain ⟨-, -, x, hx, hhx⟩ := digestValue_eq_ok.mp (hid ha)
  obtain ⟨-, -, y, hy, hhy⟩ := digestValue_eq_ok.mp (hid hb)
  intro heq
  have hxy := digestMessage_inj (hfree (hma x hx) (hmb y hy) (hhx.trans (heq.trans hhy.symm)))
  exact hne (Code.encode_inj _ hx (hxy ▸ hy))

/-- For every accepted committee of weight `W`: when two certificates verify for different batches
with one author and sequence number, the members that attest in both weigh at least twice the
threshold less `W`, more than a third of `W`, and the two attestations of each of them make evidence
that verifies. -/
theorem accountable_safety (crypto : Crypto) (committee : DaCommitteeDescriptor)
    (hvalid : committee.validate crypto = .ok ()) (left right : AvailabilityCertificate)
    (hleft : left.verify crypto committee = .ok ())
    (hright : right.verify crypto committee = .ok ())
    (hbatch : left.envelope.batchId crypto ≠ right.envelope.batchId crypto)
    (hauthor : left.envelope.authorId = right.envelope.authorId)
    (hsequence : left.envelope.authorSequence = right.envelope.authorSequence)
    (hfree : Set.InjOn crypto.sha256
      {x | x ∈ attestationMessages left ++ attestationMessages right}) :
    2 * committee.thresholdWeight.toNat - committee.totalWeight ≤
        weightOf (fun m => m.weight.toNat) (fun m => left.attestedBy m && right.attestedBy m)
          committee.members ∧
      committee.totalWeight <
        3 * (2 * committee.thresholdWeight.toNat - committee.totalWeight) ∧
      ∀ m ∈ committee.members, left.attestedBy m → right.attestedBy m →
        (∃ a ∈ left.attestations, a.body.attestorId = m.definitionHash) ∧
        (∃ b ∈ right.attestations, b.body.attestorId = m.definitionHash) ∧
        ∀ a ∈ left.attestations, ∀ b ∈ right.attestations,
          a.body.attestorId = m.definitionHash → b.body.attestorId = m.definitionHash →
          ∃ evidence,
            AttestorEquivocationEvidence.ofAttestations crypto committee a b = .ok evidence ∧
              evidence.verify crypto committee = .ok () := by
  have haccepted := accepted_of_validate hvalid
  obtain ⟨leftId, hl⟩ := certified_of_verify haccepted hleft
  obtain ⟨rightId, hr⟩ := certified_of_verify haccepted hright
  have hne : leftId ≠ rightId := fun h => hbatch (by rw [hl.identified, hr.identified, h])
  refine ⟨?_, ?_, fun m _ hml hmr => ⟨?_, ?_, fun a ha b hb ham hbm => ?_⟩⟩
  · have hboth : weightOf (fun m => m.weight.toNat) left.attestedBy committee.members +
        weightOf (fun m => m.weight.toNat) right.attestedBy committee.members ≤
        weightOf (fun m => m.weight.toNat) (fun m => left.attestedBy m && right.attestedBy m)
          committee.members + committee.totalWeight := two_quorums
    have := hl.quorum
    have := hr.quorum
    omega
  · have := haccepted.threshold
    omega
  · simpa [AvailabilityCertificate.attestedBy] using hml
  · simpa [AvailabilityCertificate.attestedBy] using hmr
  · have hla := hl.binds a ha
    have hrb := hr.binds b hb
    -- context, namespace and epoch are those of the committee on both sides
    have hcoordinate : a.body.coordinate = b.body.coordinate := by
      simp only [DaAttestationBody.coordinate, hla.context, hla.namespaceTag, hla.epoch,
        hla.authorId, hla.authorSequence, hrb.context, hrb.namespaceTag, hrb.epoch, hrb.authorId,
        hrb.authorSequence, hl.context, hl.namespaceTag, hl.epoch, hr.context, hr.namespaceTag,
        hr.epoch, hauthor, hsequence, ham, hbm]
    have hbatchIds : a.body.batchId ≠ b.body.batchId := by rwa [hla.batchId, hrb.batchId]
    refine exists_evidence (hl.verified a ha) (hr.verified b hb) hcoordinate hbatchIds ?_
      (hl.attestation_written a ha) (hr.attestation_written b hb)
    exact attestationId_ne hfree (hl.verified a ha) (hr.verified b hb)
      (fun x hx => List.mem_append_left _ (mem_attestationMessages ha hx))
      (fun x hx => List.mem_append_right _ (mem_attestationMessages hb hx))
      fun h => hbatchIds (congrArg _ h)

/-! ## Two certificates of one committee -/

def sampleCrypto : Crypto := ⟨Hash.checksum, fun _ => true, fun _ => false, fun _ _ _ => true⟩

def sampleContext : ProtocolContext := ⟨1, .ofByte 1, [65], 1, .ofByte 2⟩

def sampleMember (key : UInt8) : DaResult DaMember := do
  let body : DaMemberBody := ⟨0, .ofByte key, 1, none, .zero, .zero⟩
  let hash ← digestValue sampleCrypto "trnm.portable.v2.da-member.v1" DaMemberBody.code body
  return ⟨body, hash⟩

/-- Four members of weight 1: the threshold is 3. -/
def sampleCommittee : DaResult DaCommitteeDescriptor := do
  let members ← [1, 2, 3, 4].mapM sampleMember
  DaCommitteeDescriptor.newTransactionBatch sampleCrypto sampleContext 5 members 1 14 14 9 9

/-- The certificate of the batch with the given content, signed by the members with these keys. -/
def sampleCertificate (committee : DaCommitteeDescriptor) (content : UInt8) (keys : List UInt8) :
    DaResult AvailabilityCertificate := do
  let committeeId ← committee.committeeId sampleCrypto
  let envelope : DaBatchEnvelope := ⟨1, sampleContext, 0, 5, committeeId, [7], 1, 0, .zero, 1, 1,
    .ofByte content, .zero, 1, .zero, 6⟩
  let statement ← envelope.statement sampleCrypto
  let attestations ← keys.mapM fun key => do
    let member ← sampleMember key
    let body := DaAttestationBody.ofEnvelope envelope statement.batchId
      member.definitionHash 1 .zero
    DaAttestation.fromSignature sampleCrypto committee body (List.replicate 64 0)
  AvailabilityCertificate.build sampleCrypto committee envelope
    ⟨statement, 0, .zero, List.replicate 64 0⟩ attestations

/-- The committee with one certificate of members 1, 2 and 3 and one of members 2, 3 and 4. -/
def sampleConflict :
    DaResult (DaCommitteeDescriptor × AvailabilityCertificate × AvailabilityCertificate) := do
  let committee ← sampleCommittee
  let left ← sampleCertificate committee 1 [1, 2, 3]
  let right ← sampleCertificate committee 2 [2, 3, 4]
  return (committee, left, right)

/-- The conditions of the theorem, as a test. -/
def conflicting (committee : DaCommitteeDescriptor) (left right : AvailabilityCertificate) : Bool :=
  committee.validate sampleCrypto = .ok () ∧ left.verify sampleCrypto committee = .ok () ∧
    right.verify sampleCrypto committee = .ok () ∧
    left.envelope.batchId sampleCrypto ≠ right.envelope.batchId sampleCrypto ∧
    left.envelope.authorId = right.envelope.authorId ∧
    left.envelope.authorSequence = right.envelope.authorSequence ∧
    ∀ x ∈ attestationMessages left ++ attestationMessages right,
      ∀ y ∈ attestationMessages left ++ attestationMessages right,
        sampleCrypto.sha256 x = sampleCrypto.sha256 y → x = y

theorem sampleConflict_conflicting :
    sampleConflict.map (fun x => conflicting x.1 x.2.1 x.2.2) = .ok true := by decide +kernel

theorem sampleConflict_accountable : ∃ committee left right,
    sampleConflict = .ok (committee, left, right) ∧
    committee.totalWeight < 3 * weightOf (fun m => m.weight.toNat)
      (fun m => left.attestedBy m && right.attestedBy m) committee.members := by
  obtain ⟨⟨committee, left, right⟩, heq, htest⟩ := map_eq_ok.mp sampleConflict_conflicting
  simp only [conflicting, decide_eq_true_eq] at htest
  obtain ⟨hvalid, hleft, hright, hbatch, hauthor, hsequence, hfree⟩ := htest
  obtain ⟨hquorum, hthird, -⟩ := accountable_safety sampleCrypto committee hvalid left right hleft
    hright hbatch hauthor hsequence fun x hx y hy => hfree x hx y hy
  exact ⟨committee, left, right, heq, by omega⟩

/-! ## Canonical evidence -/

namespace AttestorEquivocationEvidence
variable {e : AttestorEquivocationEvidence}

theorem ofAttestations_symm (h : ofAttestations crypto committee a b = .ok e) :
    ofAttestations crypto committee b a = .ok e := by
  simp only [ofAttestations, bind_eq_ok, require_eq_ok] at h ⊢
  obtain ⟨_, ha, _, hb, _, hca, _, hcb, _, ⟨rfl, hbatch, hid⟩, h⟩ := h
  refine ⟨(), hb, (), ha, _, hcb, _, hca, (), ⟨rfl, hbatch.symm, hid.symm⟩, ?_⟩
  rcases lt_or_gt_of_ne hid with hlt | hlt
  · rw [if_neg hlt.not_ge]
    rwa [if_pos hlt.le] at h
  · rw [if_pos hlt.le]
    rwa [if_neg hlt.not_ge] at h

theorem sides (h : ofAttestations crypto committee a b = .ok e) :
    e.left = a ∧ e.right = b ∨ e.left = b ∧ e.right = a := by
  simp only [ofAttestations, bind_eq_ok, require_eq_ok, pure_eq_ok] at h
  obtain ⟨_, -, _, -, _, -, _, -, _, -, _, -, rfl⟩ := h
  split <;> simp

/-- Evidence is accepted exactly when two attestations make it, and they make it in either order. -/
theorem verify_iff_made (crypto : Crypto) (committee : DaCommitteeDescriptor)
    (e : AttestorEquivocationEvidence) :
    (e.verify crypto committee = .ok () ↔ ∃ a b, ofAttestations crypto committee a b = .ok e) ∧
    ∀ a b, ofAttestations crypto committee a b = .ok e ↔
      ofAttestations crypto committee b a = .ok e := by
  refine ⟨?_, fun a b => ⟨ofAttestations_symm, ofAttestations_symm⟩⟩
  simp only [verify, bind_eq_ok, require_eq_ok]
  constructor
  · rintro ⟨_, hmade, rfl⟩
    exact ⟨_, _, hmade⟩
  · rintro ⟨a, b, h⟩
    obtain ⟨hleft, hright⟩ | ⟨hleft, hright⟩ := sides h
    · exact ⟨e, hleft ▸ hright ▸ h, rfl⟩
    · exact ⟨e, hleft ▸ hright ▸ ofAttestations_symm h, rfl⟩

end AttestorEquivocationEvidence

end Trillionnium.DataAvailability
