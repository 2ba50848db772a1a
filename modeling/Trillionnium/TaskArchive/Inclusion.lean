import Trillionnium.Lib.Merkle
import Trillionnium.TaskArchive.Batch

/-!
# Inclusion proofs

`inclusion_proof` and `verify_task_archive_inclusion_v1` of `archive.rs` with the wrapper of
`archive_verifier.rs`. A proof names the position of its record and the nodes beside the way up; the
verifier knows the number of records from the seal, and so the depth.
-/

namespace Trillionnium.TaskArchive

open Lib Pon
open TaskKernel (Outcome overflow digestMessage digestValue_eq_ok Domain)

def maxTaskArchiveProofDepth : Nat := 12

structure TaskArchiveInclusionProof where
  schemaVersion : U16
  sealHash : Hash
  leafIndex : U32
  siblings : List Hash

/-! ## The tree -/

section
variable (sha256 : Bytes → Hash)

/-- The node beside the one at `index`, or that one itself at the end of an odd level. -/
def siblingAt (level : List Hash) (index : Nat) : Outcome Hash :=
  if index % 2 = 0 then getOr (level[index + 1]?.or level[index]?) (.panicked "index out of bounds")
  else getOr level[index - 1]? (.panicked "index out of bounds")

/-- The loop of `merkle_proof_v1`. -/
def proofSiblings : Nat → List Hash → Nat → Outcome (List Hash)
  | 0, _, _ => .ok []
  | rounds + 1, level, index =>
    if 1 < level.length then do
      let beside ← siblingAt level index
      let next ← merkleParents sha256 level
      let rest ← proofSiblings rounds next (index / 2)
      return beside :: rest
    else .ok []

def merkleProof (leaves : List Hash) (leafIndex : Nat) : Outcome (List Hash) := do
  require (leaves ≠ [] ∧ leafIndex < leaves.length)
    (.coded .invalidBounds "TaskV1 archive proof index is outside the Merkle tree")
  let siblings ← proofSiblings sha256 leaves.length leaves leafIndex
  require (siblings.length ≤ maxTaskArchiveProofDepth)
    (.coded .invalidBounds "TaskV1 archive proof exceeds the hard depth bound")
  return siblings

/-- The loop of `expected_proof_depth_v1`. -/
def depthFrom : Nat → Nat → Nat
  | 0, _ => 0
  | rounds + 1, width => if 1 < width then depthFrom rounds ((width + 1) / 2) + 1 else 0

def expectedProofDepth (recordCount : U32) : Outcome Nat := do
  require (recordCount ≠ 0 ∧ recordCount ≤ maxTaskArchiveBatchRecords)
    (.coded .invalidBounds "TaskV1 archive seal count is outside the hard bound")
  return depthFrom recordCount.toNat recordCount.toNat

/-! ## Proofs -/

def TaskArchiveBatch.inclusionProof (batch : TaskArchiveBatch) (policy : TaskArchivePolicy)
    (taskId : TaskId) : Outcome TaskArchiveInclusionProof := do
  batch.validate sha256 policy
  let index ← getOr (batch.records.findIdx? (·.taskId = taskId))
    (.coded .notFound "TaskV1 not in archive batch")
  let hashes ← batch.records.mapM (·.recordHash sha256)
  let siblings ← merkleProof sha256 hashes index
  let sealHash ← batch.seal_.sealHash sha256
  require (index < 2 ^ 32) (overflow "TaskV1 archive proof index conversion overflow")
  return ⟨schemaVersionV1, sealHash, BitVec.ofNat 32 index, siblings⟩

/-- One round of the verifier: the node and its position on the next level. -/
def proofStep (at_ : Nat × Hash) (beside : Hash) : Outcome (Nat × Hash) := do
  let parent ← if at_.1 % 2 = 0 then merkleParent sha256 at_.2 beside
    else merkleParent sha256 beside at_.2
  return (at_.1 / 2, parent)

/-- `archive::verify_task_archive_inclusion_v1`. -/
def verifyInclusion (s : TaskArchiveSeal) (record : TerminalTaskArchiveRecord)
    (proof : TaskArchiveInclusionProof) : Outcome Unit := do
  require (proof.schemaVersion = schemaVersionV1 ∧ s.schemaVersion = schemaVersionV1)
    (.coded .invalidState "TaskV1 archive inclusion proof header is invalid")
  let sealHash ← s.sealHash sha256
  require (proof.sealHash = sealHash ∧ record.context = s.context ∧ proof.leafIndex < s.recordCount)
    (.coded .invalidState "TaskV1 archive inclusion proof header is invalid")
  let depth ← expectedProofDepth s.recordCount
  require (proof.siblings.length = depth ∧ proof.siblings.length ≤ maxTaskArchiveProofDepth)
    (.coded .invalidState "TaskV1 archive inclusion proof header is invalid")
  let leaf ← record.recordHash sha256
  let reached ← proof.siblings.foldlM (proofStep sha256) (proof.leafIndex.toNat, leaf)
  require (reached.2 = s.recordsRoot)
    (.coded .tamperDetected "TaskV1 archive inclusion proof does not reach the sealed root")

def verifyRetentionElapsed (archiveHeight : U64) (record : TerminalTaskArchiveRecord) :
    Outcome Unit := do
  let prunable ← checkedAdd record.retentionPaidThroughHeight 1
    (overflow "TaskV1 first-prunable height overflow at archive verification")
  require (prunable ≤ archiveHeight)
    (.coded .invalidState "TaskV1 archive artifact violates prepaid retention")

/-- `archive_verifier::verify_task_archive_inclusion_v1`. -/
def verifyTaskArchiveInclusion (s : TaskArchiveSeal) (record : TerminalTaskArchiveRecord)
    (proof : TaskArchiveInclusionProof) : Outcome Unit := do
  verifyRetentionElapsed s.archiveHeight record
  verifyInclusion sha256 s record proof

/-- `archive_verifier::verify_task_archive_batch_v1`. -/
def verifyTaskArchiveBatch (policy : TaskArchivePolicy) (batch : TaskArchiveBatch) :
    Outcome Unit := do
  batch.validate sha256 policy
  batch.records.forM (verifyRetentionElapsed batch.seal_.archiveHeight)

end

/-! ## Digests -/

def recordDomain : String := "trnm.portable.v2.task-archive-record.candidate.v1"

def nodeDomain : String := "trnm.portable.v2.task-archive-merkle-node.candidate.v1"

/-- The bytes that are hashed for a record that can be encoded. -/
def recordMessage (record : TerminalTaskArchiveRecord) : Bytes :=
  digestMessage recordDomain ((TerminalTaskArchiveRecord.code.encode record).getD [])

def nodeMessage (pair : Hash × Hash) : Bytes :=
  digestMessage nodeDomain (pair.1.bytes ++ pair.2.bytes)

section
variable {sha256 : Bytes → Hash} {record : TerminalTaskArchiveRecord}
  {records : List TerminalTaskArchiveRecord}

def node (sha256 : Bytes → Hash) (left right : Hash) : Hash := sha256 (nodeMessage (left, right))

theorem merkleParent_eq (left right : Hash) :
    merkleParent sha256 left right = .ok (node sha256 left right) :=
  (digestValue_eq_ok (by decide)).mpr ⟨_, rfl, rfl⟩

theorem merkleParents_eq (level : List Hash) :
    merkleParents sha256 level = .ok (Merkle.levelUp (node sha256) level) := by
  induction level using Merkle.levelUp.induct with
  | case1 => rfl
  | case2 a => rw [merkleParents, merkleParent_eq]; rfl
  | case3 a b rest ih => rw [merkleParents, merkleParent_eq, bind_of_ok rfl, ih]; rfl

theorem merkleTop_eq (rounds level : Nat) (l : List Hash) :
    merkleTop sha256 rounds l = .ok (Merkle.top (fun _ => node sha256) rounds level l) := by
  induction rounds generalizing level l with
  | zero => rfl
  | succ rounds ih =>
    rw [merkleTop, Merkle.top]
    split
    · rw [merkleParents_eq, bind_of_ok rfl, ih (level + 1)]
    · rfl

/-- A root is the last node of the tree. -/
theorem merkleRoot_eq_ok : merkleRoot sha256 leaves = .ok root ↔
      leaves ≠ [] ∧ Merkle.top (fun _ => node sha256) leaves.length 0 leaves = [root] := by
  simp only [merkleRoot, bind_eq_ok, require_eq_ok, merkleTop_eq _ 0, getOr_eq_ok, Except.ok.injEq]
  constructor
  · rintro ⟨_, hne, _, rfl, hhead⟩
    obtain ⟨x, hx⟩ := List.length_eq_one_iff.mp
      (Merkle.length_top (fun _ => node sha256) hne le_rfl)
    rw [hx] at hhead ⊢
    exact ⟨hne, by simpa using hhead⟩
  · rintro ⟨hne, htop⟩
    exact ⟨(), hne, _, rfl, by rw [htop]; rfl⟩

theorem recordHash_eq_ok :
    record.recordHash sha256 = .ok digest ↔ record.schemaVersion = schemaVersionV1 ∧
      (TerminalTaskArchiveRecord.code.encode record).isSome ∧
      sha256 (recordMessage record) = digest := by
  have hdomain : Domain recordDomain := by decide
  simp only [TerminalTaskArchiveRecord.recordHash, bind_eq_ok, require_eq_ok, exists_const]
  rw [show "trnm.portable.v2.task-archive-record.candidate.v1" = recordDomain from rfl,
    digestValue_eq_ok hdomain, recordMessage]
  cases TerminalTaskArchiveRecord.code.encode record with
  | none => simp
  | some bs => simp

/-- Records that can be encoded are told apart by what is hashed. -/
theorem recordMessage_inj (h : (TerminalTaskArchiveRecord.code.encode record).isSome)
    (h' : (TerminalTaskArchiveRecord.code.encode record').isSome)
    (heq : recordMessage record = recordMessage record') : record = record' := by
  obtain ⟨bs, hbs⟩ := Option.isSome_iff_exists.mp h
  obtain ⟨bs', hbs'⟩ := Option.isSome_iff_exists.mp h'
  have heq := TaskKernel.digestMessage_inj heq
  rw [hbs, hbs', Option.getD_some, Option.getD_some] at heq
  exact TerminalTaskArchiveRecord.code.encode_inj hbs (heq ▸ hbs')

/-- Where a record can be encoded its context can, and where that can a seal can. -/
theorem context_isSome (h : (TerminalTaskArchiveRecord.code.encode record).isSome) :
    ∃ x, TaskKernel.ProtocolContext.code.encode record.context = some x :=
  (Code.pair_isSome.mp (Code.pair_isSome.mp (Option.isSome_iff_exists.mp h)).2).1

theorem seal_isSome (h : ∃ x, TaskKernel.ProtocolContext.code.encode s.context = some x) :
    ∃ x, TaskArchiveSeal.code.encode s = some x :=
  Code.pair_isSome.mpr ⟨⟨_, rfl⟩, Code.pair_isSome.mpr ⟨h, ⟨_, rfl⟩⟩⟩

theorem nodeMessage_inj (h : nodeMessage p = nodeMessage q) : p = q := by
  obtain ⟨hleft, hright⟩ := List.append_inj (TaskKernel.digestMessage_inj h)
    (by rw [p.1.size_eq, q.1.size_eq])
  exact Prod.ext (Hash.ext_bytes hleft) (Hash.ext_bytes hright)

/-! ## Loops -/

theorem siblingAt_eq (h : index < level.length) :
    siblingAt level index = .ok (Merkle.sibling level index (level.getD index Hash.zero)) := by
  have hself : level[index]? = some (level.getD index Hash.zero) := by
    rw [List.getD_eq_getElem?_getD, List.getElem?_eq_getElem h, Option.getD_some]
  generalize level.getD index Hash.zero = x at hself
  unfold siblingAt Merkle.sibling
  split
  · rw [getOr_eq_ok, hself, List.getD_eq_getElem?_getD]
    cases level[index + 1]? <;> rfl
  · rw [getOr_eq_ok, List.getD_eq_getElem?_getD, List.getElem?_eq_getElem (by omega),
      Option.getD_some]

theorem proofSiblings_eq {rounds index : Nat} {level : List Hash} (h : index < level.length) :
    proofSiblings sha256 rounds level index = .ok
      (Merkle.path (node sha256) Hash.zero rounds level index) := by
  induction rounds generalizing level index with
  | zero => rfl
  | succ rounds ih =>
    rw [proofSiblings, Merkle.path]
    split
    · have hnext : index / 2 < (Merkle.levelUp (node sha256) level).length := by
        rw [Merkle.length_levelUp]
        omega
      rw [siblingAt_eq h, bind_of_ok rfl, merkleParents_eq, bind_of_ok rfl, ih hnext,
        bind_of_ok rfl]
      rfl
    · rfl

theorem depthFrom_eq (h : width ≤ rounds) : depthFrom rounds width = Nat.clog 2 width := by
  induction rounds generalizing width with
  | zero => rw [Nat.le_zero.mp h, Nat.clog_zero_right, depthFrom]
  | succ rounds ih =>
    rw [depthFrom]
    split
    · next hwide =>
      rw [ih (by omega), Nat.clog_of_two_le (by omega) hwide]
      rfl
    · next hnarrow => rw [Nat.clog_of_right_le_one (by omega)]

/-- The verifier walks up from the position of the proof. -/
theorem foldlM_proofStep (siblings : List Hash) (position : Nat) (x : Hash) :
    ∃ last, siblings.foldlM (proofStep sha256) (position, x) =
      .ok (last, Merkle.walk (node sha256) x position siblings) := by
  induction siblings generalizing position x with
  | nil => exact ⟨position, rfl⟩
  | cons beside siblings ih =>
    have hstep : proofStep sha256 (position, x) beside = .ok (position / 2,
        node sha256 (Merkle.stepPair x position beside).1
          (Merkle.stepPair x position beside).2) := by
      unfold proofStep Merkle.stepPair
      dsimp only
      split
      · rw [merkleParent_eq]
        rfl
      · rw [merkleParent_eq]
        rfl
    rw [List.foldlM_cons, hstep, bind_of_ok rfl, Merkle.walk]
    exact ih ..

theorem verifyRetentionElapsed_eq_ok :
    verifyRetentionElapsed archiveHeight record = .ok u ↔
      record.retentionPaidThroughHeight.toNat < archiveHeight.toNat := by
  have hone : (1 : U64).toNat = 1 := rfl
  simp only [verifyRetentionElapsed, bind_eq_ok, require_eq_ok, checkedAdd_eq_ok,
    BitVec.le_def, hone]
  constructor
  · rintro ⟨prunable, hprunable, hle⟩
    omega
  · intro hlt
    have hword := archiveHeight.isLt
    refine ⟨BitVec.ofNat 64 (record.retentionPaidThroughHeight.toNat + 1), ?_⟩
    rw [BitVec.toNat_ofNat, Nat.mod_eq_of_lt (by omega)]
    exact ⟨rfl, hlt⟩

/-! ## What validation gives -/

variable {policy : TaskArchivePolicy}

/-- What the loop of `validate` has checked of the records, with their hashes. -/
structure Checked (sha256 : Bytes → Hash) (policy : TaskArchivePolicy) (archiveHeight : U64)
    (records : List TerminalTaskArchiveRecord) (hashes : List Hash) : Prop where
  context : ∀ record ∈ records, record.context = policy.context
  elapsed : ∀ record ∈ records, record.retentionPaidThroughHeight.toNat < archiveHeight.toNat
  distinct : records.Pairwise fun r r' => r.taskId ≠ r'.taskId
  hashed : records.mapM (·.recordHash sha256) = .ok hashes

theorem context_of_validateAgainst {height : U64} {u : Unit}
    (h : record.validateAgainst policy height = .ok u) : record.context = policy.context := by
  simp only [TerminalTaskArchiveRecord.validateAgainst, bind_eq_ok, require_eq_ok] at h
  obtain ⟨_, -, _, hcontext, -⟩ := h
  exact hcontext

/-- Records that are new after an insertion were new before it, and are others. -/
theorem new_of_insert {ids : TaskIdSet} {id : TaskId}
    (h : ∀ record ∈ records, (ids.insert id ()).get record.taskId = none) :
    ∀ record ∈ records, id ≠ record.taskId ∧ ids.get record.taskId = none := by
  intro record hmem
  have hget := h record hmem
  rw [OrdMap.get_insert] at hget
  split at hget
  · cases hget
  · next hne => exact ⟨hne, hget⟩

theorem foldlM_countRecord {archiveHeight : U64} {tally tally' : Tally}
    (h : records.foldlM (TaskArchiveBatch.countRecord sha256 policy archiveHeight) tally =
      .ok tally') :
    (∀ record ∈ records, tally.taskIds.get record.taskId = none) ∧
      ∃ hashes, tally'.hashes = tally.hashes ++ hashes ∧
        Checked sha256 policy archiveHeight records hashes := by
  induction records generalizing tally with
  | nil =>
    cases h
    exact ⟨by simp, [], by simp, ⟨by simp, by simp, .nil, rfl⟩⟩
  | cons record records ih =>
    rw [List.foldlM_cons, bind_eq_ok] at h
    obtain ⟨next, hstep, h⟩ := h
    obtain ⟨hnone, hashes, hhashes, hchecked⟩ := ih h
    simp only [TaskArchiveBatch.countRecord, TerminalTaskArchiveRecord.firstPrunableHeight,
      bind_eq_ok, require_eq_ok, pure_eq_ok, checkedAdd_eq_ok] at hstep
    obtain ⟨_, hvalid, prunable, hprunable, _, helapsed, _, hnew, _, -, _, -, _, -, hash, hhash,
      rfl⟩ := hstep
    have hold := new_of_insert hnone
    refine ⟨List.forall_mem_cons.mpr ⟨hnew, fun r hr => (hold r hr).2⟩, hash :: hashes, ?_, ?_⟩
    · rw [hhashes, List.append_assoc, List.singleton_append]
    · have hlt : record.retentionPaidThroughHeight.toNat < archiveHeight.toNat := by
        have := BitVec.le_def.mp helapsed
        have hone : (1 : U64).toNat = 1 := rfl
        omega
      refine ⟨List.forall_mem_cons.mpr ⟨context_of_validateAgainst hvalid, hchecked.context⟩,
        List.forall_mem_cons.mpr ⟨hlt, hchecked.elapsed⟩,
        List.pairwise_cons.mpr ⟨fun r hr => (hold r hr).1, hchecked.distinct⟩, ?_⟩
      rw [List.mapM_cons, hhash, bind_of_ok rfl, hchecked.hashed]
      rfl

/-- What is known of a batch that passed `validate`. -/
structure Valid (sha256 : Bytes → Hash) (policy : TaskArchivePolicy) (batch : TaskArchiveBatch)
    (hashes : List Hash) : Prop where
  schema : batch.seal_.schemaVersion = schemaVersionV1
  context : batch.seal_.context = policy.context
  count : batch.seal_.recordCount.toNat = batch.records.length
  bound : batch.records.length ≤ 4096
  checked : Checked sha256 policy batch.seal_.archiveHeight batch.records hashes
  root : merkleRoot sha256 hashes = .ok batch.seal_.recordsRoot

theorem valid_of_validate (h : batch.validate sha256 policy = .ok ()) :
    ∃ hashes, Valid sha256 policy batch hashes := by
  simp only [TaskArchiveBatch.validate, TaskArchivePolicy.validate, bind_eq_ok, require_eq_ok] at h
  obtain ⟨_, ⟨_, -, _, -, hhard⟩, _, ⟨-, hbound⟩, _, ⟨hschema, hcontext⟩, _, -, _, -, _, -, _,
    hcount, tally, htally, _, -, root, hroot, _, rfl, -⟩ := h
  obtain ⟨-, hashes, hhashes, hchecked⟩ := foldlM_countRecord htally
  rw [hhashes] at hroot
  have hhard := BitVec.le_def.mp hhard
  exact ⟨hashes, hschema, hcontext, hcount, hbound.trans hhard, hchecked, hroot⟩

/-! ## Completeness and soundness -/

def leafHash (sha256 : Bytes → Hash) (record : TerminalTaskArchiveRecord) : Hash :=
  sha256 (recordMessage record)

theorem Checked.hashes_eq (h : Checked sha256 policy archiveHeight records hashes) :
    hashes = records.map (leafHash sha256) ∧ ∀ record ∈ records,
    record.recordHash sha256 = .ok (leafHash sha256 record) := by
  have hrecord : ∀ record ∈ records, record.recordHash sha256 = .ok (leafHash sha256 record) := by
    intro record hmem
    obtain ⟨digest, hdigest⟩ := exists_mapM_eq_ok.mp ⟨hashes, h.hashed⟩ record hmem
    rw [hdigest, (recordHash_eq_ok.mp hdigest).2.2.symm]
    rfl
  refine ⟨map_of_mapM h.hashed fun record hmem digest hdigest => ?_, hrecord⟩
  exact Except.ok.inj ((hrecord record hmem).symm.trans hdigest)

section
variable {batch : TaskArchiveBatch} {hashes : List Hash} (h : Valid sha256 policy batch hashes)
include h

theorem Valid.count_ne :
    batch.seal_.recordCount ≠ 0 ∧ batch.seal_.recordCount ≤ maxTaskArchiveBatchRecords := by
  obtain ⟨hne, -⟩ := merkleRoot_eq_ok.mp h.root
  have hlength : 0 < batch.records.length := by
    rw [h.checked.hashes_eq.1] at hne
    exact List.length_pos_iff.mpr fun hnil => hne (by rw [hnil]; rfl)
  have hcount := h.count
  refine ⟨fun hzero => ?_, BitVec.le_def.mpr (by rw [hcount]; exact h.bound)⟩
  rw [hzero] at hcount
  change 0 = _ at hcount
  omega

theorem Valid.depth_eq :
    expectedProofDepth batch.seal_.recordCount = .ok (Nat.clog 2 batch.records.length) := by
  rw [expectedProofDepth, require, if_pos h.count_ne, bind_of_ok rfl, depthFrom_eq le_rfl, h.count]
  rfl

theorem Valid.depth_le : Nat.clog 2 batch.records.length ≤ maxTaskArchiveProofDepth :=
  (Nat.clog_mono_right 2 h.bound).trans (by decide)

/-- The position that is searched for is the record's. -/
theorem Valid.findIdx (hmem : record ∈ batch.records) :
    ∃ index, batch.records.findIdx? (·.taskId = record.taskId) = some index ∧
      batch.records[index]? = some record := by
  have hsome : (batch.records.findIdx? (·.taskId = record.taskId)).isSome := by
    rw [List.findIdx?_isSome]
    exact List.any_eq_true.mpr ⟨record, hmem, decide_eq_true rfl⟩
  obtain ⟨index, hindex⟩ := Option.isSome_iff_exists.mp hsome
  obtain ⟨hlt, hid, -⟩ := List.findIdx?_eq_some_iff_getElem.mp hindex
  have hnodup : (batch.records.map (·.taskId)).Nodup := List.pairwise_map.mpr h.checked.distinct
  have heq := List.inj_on_of_nodup_map hnodup (List.getElem_mem hlt) hmem (of_decide_eq_true hid)
  exact ⟨index, hindex, by rw [List.getElem?_eq_getElem hlt, heq]⟩

theorem Valid.sealHash_eq
    (hmem : record ∈ batch.records) : ∃ digest, batch.seal_.sealHash sha256 = .ok digest := by
  have hrecord := (recordHash_eq_ok.mp (h.checked.hashes_eq.2 record hmem)).2.1
  have hcontext := context_isSome hrecord
  rw [h.checked.context record hmem, ← h.context] at hcontext
  obtain ⟨bs, hbs⟩ := seal_isSome hcontext
  exact ⟨_, bind_eq_ok.mpr ⟨(), require_eq_ok.mpr ⟨h.schema, h.count_ne.1⟩,
    (digestValue_eq_ok (by decide)).mpr ⟨bs, hbs, rfl⟩⟩⟩

/-- The proof of a record leads the verifier to the root. -/
theorem Valid.proof_verified (hvalidate : batch.validate sha256 policy = .ok ())
    (hmem : record ∈ batch.records) :
    ∃ proof, batch.inclusionProof sha256 policy record.taskId = .ok proof ∧
      verifyTaskArchiveInclusion sha256 batch.seal_ record proof = .ok () := by
  obtain ⟨index, hindex, hget⟩ := h.findIdx hmem
  obtain ⟨digest, hdigest⟩ := h.sealHash_eq hmem
  obtain ⟨hhashes, hleaves⟩ := h.checked.hashes_eq
  obtain ⟨hne, htop⟩ := merkleRoot_eq_ok.mp h.root
  have hlength : hashes.length = batch.records.length := by rw [hhashes, List.length_map]
  have hleaf : hashes[index]? = some (leafHash sha256 record) := by
    rw [hhashes, List.getElem?_map, hget, Option.map_some]
  have hlt : index < hashes.length := List.getElem?_eq_some_iff.mp hleaf |>.1
  have hpath := @proofSiblings_eq sha256 hashes.length _ _ hlt
  obtain ⟨hdepth, hwalk⟩ := @Merkle.walk_path _ hashes _ 0 index _ (node sha256) Hash.zero
    le_rfl hleaf
  generalize Merkle.path (node sha256) Hash.zero hashes.length hashes index =
    siblings at hpath hdepth hwalk
  obtain ⟨last, hfold⟩ := @foldlM_proofStep sha256 siblings index (leafHash sha256 record)
  have hdepth := hdepth.trans (congrArg (Nat.clog 2) hlength)
  have hshort : siblings.length ≤ maxTaskArchiveProofDepth := hdepth.trans_le h.depth_le
  have hword : index < 2 ^ 32 := by
    have := h.bound
    omega
  have hposition : (BitVec.ofNat 32 index).toNat = index := by
    rw [BitVec.toNat_ofNat, Nat.mod_eq_of_lt hword]
  refine ⟨⟨schemaVersionV1, digest, BitVec.ofNat 32 index, siblings⟩, ?_, ?_⟩
  · simp only [TaskArchiveBatch.inclusionProof, merkleProof, bind_eq_ok, require_eq_ok, pure_eq_ok,
      getOr_eq_ok]
    exact ⟨(), hvalidate, index, hindex, hashes, h.checked.hashed, siblings,
      ⟨(), ⟨hne, hlt⟩, siblings, hpath, (), hshort, rfl⟩, digest, hdigest, (), hword, rfl⟩
  · have hreached : Merkle.walk (node sha256) (leafHash sha256 record) index siblings =
        batch.seal_.recordsRoot :=
      List.singleton_inj.mp (hwalk.symm.trans htop)
    have hcontext : record.context = batch.seal_.context :=
      (h.checked.context record hmem).trans h.context.symm
    have hinside : BitVec.ofNat 32 index < batch.seal_.recordCount := by
      rw [BitVec.lt_def, hposition, h.count, ← hlength]
      exact hlt
    simp only [verifyTaskArchiveInclusion, verifyInclusion, bind_eq_ok, require_eq_ok, hposition]
    exact ⟨(), verifyRetentionElapsed_eq_ok.mpr (h.checked.elapsed record hmem), (),
      ⟨trivial, h.schema⟩, digest, hdigest, (), ⟨rfl, hcontext, hinside⟩, _, h.depth_eq, (),
      ⟨hdepth, hshort⟩, _, hleaves record hmem, _, hfold, hreached⟩

/-- The bytes that are hashed for the records of a batch and the record of a proof, for the nodes of
the tree and for those of the walk. -/
def inclusionMessages (sha256 : Bytes → Hash) (batch : TaskArchiveBatch)
    (record : TerminalTaskArchiveRecord) (proof : TaskArchiveInclusionProof) : List Bytes :=
  (record :: batch.records).map recordMessage ++
    (Merkle.topPairs (fun _ => node sha256) batch.records.length 0
      (batch.records.map (leafHash sha256))).map (fun p => nodeMessage p.2) ++
    (Merkle.walkPairs (node sha256) (leafHash sha256 record) proof.leafIndex.toNat
      proof.siblings).map nodeMessage

theorem Valid.record_of_verified
    (hclean : Set.InjOn sha256 {m | m ∈ inclusionMessages sha256 batch record proof})
    (hverify : verifyInclusion sha256 batch.seal_ record proof = .ok ()) :
    batch.records[proof.leafIndex.toNat]? = some record := by
  simp only [verifyInclusion, bind_eq_ok, require_eq_ok] at hverify
  obtain ⟨_, -, _, -, _, ⟨-, -, hinside⟩, depth, hdepth, _, ⟨hlength, -⟩, leaf, hleaf, reached,
    hfold, hreached⟩ := hverify
  obtain ⟨hhashes, hleaves⟩ := h.checked.hashes_eq
  obtain ⟨-, hencoded, rfl⟩ := recordHash_eq_ok.mp hleaf
  obtain ⟨-, htop⟩ := merkleRoot_eq_ok.mp h.root
  have hinside : proof.leafIndex.toNat < hashes.length := by
    rw [hhashes, List.length_map, ← h.count]
    exact BitVec.lt_def.mp hinside
  have hdeep : proof.siblings.length = Nat.clog 2 hashes.length := by
    rw [hlength, ← Except.ok.inj (h.depth_eq.symm.trans hdepth), hhashes, List.length_map]
  have hwalk : Merkle.walk (node sha256) (leafHash sha256 record) proof.leafIndex.toNat
      proof.siblings = batch.seal_.recordsRoot := by
    obtain ⟨last, hlast⟩ := @foldlM_proofStep sha256 proof.siblings proof.leafIndex.toNat
      (leafHash sha256 record)
    rw [← hreached, Except.ok.inj (hfold.symm.trans hlast)]
  have hreach := Merkle.getElem?_of_walk (node sha256) le_rfl hinside htop hdeep hwalk
      fun p hp q hq heq => by
    have hq : nodeMessage q.2 ∈ inclusionMessages sha256 batch record proof := by
      rw [hhashes, List.length_map] at hq
      exact List.mem_append_left _ (List.mem_append_right _ (List.mem_map_of_mem hq))
    exact nodeMessage_inj (hclean (List.mem_append_right _ (List.mem_map_of_mem hp)) hq heq)
  rw [hhashes, List.getElem?_map, Option.map_eq_some_iff] at hreach
  obtain ⟨other, hother, heq⟩ := hreach
  have hmem := List.mem_of_getElem? hother
  have hrecord (r : TerminalTaskArchiveRecord) (hr : r ∈ record :: batch.records) :
      recordMessage r ∈ inclusionMessages sha256 batch record proof :=
    List.mem_append_left _ (List.mem_append_left _ (List.mem_map_of_mem hr))
  have hmessage := hclean (hrecord other (List.mem_cons_of_mem _ hmem))
    (hrecord record List.mem_cons_self) heq
  rw [hother, recordMessage_inj (recordHash_eq_ok.mp (hleaves other hmem)).2.1 hencoded hmessage]

end

end

/-- Proofs of the records of a valid batch are accepted, and what is accepted for its seal is the
record at the position of the proof. -/
theorem inclusion_complete_and_sound (sha256 : Bytes → Hash) (policy : TaskArchivePolicy)
    (batch : TaskArchiveBatch) (hvalid : batch.validate sha256 policy = .ok ()) :
    (∀ record ∈ batch.records, ∃ proof, batch.inclusionProof sha256 policy record.taskId =
      .ok proof ∧
      verifyTaskArchiveInclusion sha256 batch.seal_ record proof = .ok ()) ∧
    ∀ record proof, Set.InjOn sha256 {m | m ∈ inclusionMessages sha256 batch record proof} →
      verifyInclusion sha256 batch.seal_ record proof = .ok () →
      batch.records[proof.leafIndex.toNat]? = some record := by
  obtain ⟨hashes, h⟩ := valid_of_validate hvalid
  exact ⟨fun record hmem => h.proof_verified hvalid hmem, fun record proof => h.record_of_verified⟩

def sampleContext : TaskKernel.ProtocolContext :=
  ⟨Hash.ofByte 1, Bytes.ofString "trnm", 1, Hash.ofByte 2⟩

def samplePolicy : TaskArchivePolicy := ⟨schemaVersionV1, sampleContext, 5, 1, 100, 8, 800, 2⟩

def sampleRecord (id : UInt8) (height : U64) : TerminalTaskArchiveRecord :=
  ⟨schemaVersionV1, sampleContext, Hash.ofByte id, height, 0, Hash.ofByte id, Hash.ofByte id,
    Hash.ofByte id, 100, height + 4, 1000⟩

def sampleRecords : List TerminalTaskArchiveRecord :=
  [sampleRecord 1 10, sampleRecord 2 11, sampleRecord 3 12]

def sampleBatch : TaskArchiveBatch :=
  ⟨⟨schemaVersionV1, sampleContext, ((samplePolicy.policyHash Hash.checksum).toOption.getD
    Hash.zero), 100, 1, Hash.zero, 10, 12, Hash.ofByte 1, Hash.ofByte 3, 3, 300, 3000,
    (merkleRoot Hash.checksum (sampleRecords.map (leafHash Hash.checksum))).toOption.getD
      Hash.zero⟩, sampleRecords⟩

def sampleProof : TaskArchiveInclusionProof :=
  (sampleBatch.inclusionProof Hash.checksum samplePolicy (Hash.ofByte 3)).toOption.getD
    ⟨0, Hash.zero, 0, []⟩

theorem sampleBatch_included :
    (∃ proof, sampleBatch.inclusionProof Hash.checksum samplePolicy (Hash.ofByte 3) = .ok proof ∧
      verifyTaskArchiveInclusion Hash.checksum sampleBatch.seal_ (sampleRecord 3 12) proof =
        .ok ()) ∧
    sampleBatch.records[sampleProof.leafIndex.toNat]? = some (sampleRecord 3 12) := by
  obtain ⟨hcomplete, hsound⟩ := inclusion_complete_and_sound Hash.checksum samplePolicy sampleBatch
    (by decide +kernel)
  have hclean : ∀ a ∈ inclusionMessages Hash.checksum sampleBatch (sampleRecord 3 12) sampleProof,
      ∀ b ∈ inclusionMessages Hash.checksum sampleBatch (sampleRecord 3 12) sampleProof,
      Hash.checksum a = Hash.checksum b → a = b := by decide +kernel
  exact ⟨hcomplete (sampleRecord 3 12) (by decide), hsound (sampleRecord 3 12) sampleProof
    (fun a ha b hb => hclean a ha b hb) (by decide +kernel)⟩

end Trillionnium.TaskArchive
