import Trillionnium.TaskArchive.Inclusion

/-!
# Archive plans

`plan_task_archive_pruning_v1` of `archive.rs`: the records are put into their canonical order and
checked, and when they exceed the live limits the oldest ones that may be pruned are selected for
one batch, until the limits hold again.
-/

namespace Trillionnium.TaskArchive

open Lib Pon
open TaskKernel (Outcome overflow)

structure TaskArchivePlan where
  retainedRecords : List TerminalTaskArchiveRecord
  archiveBatch : Option TaskArchiveBatch
  deriving DecidableEq

/-- The order of `sort_by_key`, which is stable. -/
def KeyLe (a b : TerminalTaskArchiveRecord) : Prop := a.key ≤ b.key

instance : DecidableRel KeyLe := fun a b => inferInstanceAs (Decidable (a.key ≤ b.key))

def canonicalOrder (records : List TerminalTaskArchiveRecord) : List TerminalTaskArchiveRecord :=
  records.insertionSort KeyLe

/-! ## Selection -/

/-- The state of the selection loop. -/
structure Selection where
  selected : List TerminalTaskArchiveRecord
  selectedIds : TaskIdSet
  selectedBytes : U64
  remainingCount : Nat
  remainingBytes : U64

section
variable (policy : TaskArchivePolicy) (legalHolds : TaskIdSet) (currentHeight : U64)

/-- One round of the checking loop: the identifiers seen and the bytes so far. -/
def countLive (seen : TaskIdSet × U64) (record : TerminalTaskArchiveRecord) :
    Outcome (TaskIdSet × U64) := do
  record.validateAgainst policy currentHeight
  require (seen.1.get record.taskId = none)
    (.coded .nonCanonical "duplicate TaskV1 terminal record")
  let liveBytes ← checkedAdd seen.2 record.encodedBytes
    (overflow "TaskV1 live terminal byte total overflow")
  return (seen.1.insert record.taskId (), liveBytes)

/-- The live limits hold. -/
def Fits (count : Nat) (bytes : U64) : Prop :=
  count ≤ policy.maximumLiveTerminalRecords.toNat ∧ bytes ≤ policy.maximumLiveTerminalBytes

instance {count : Nat} {bytes : U64} : Decidable (Fits policy count bytes) :=
  inferInstanceAs (Decidable (_ ∧ _))

def pick (s : Selection) (record : TerminalTaskArchiveRecord) (selectedBytes : U64) :
    Outcome Selection := do
  require (1 ≤ s.remainingCount) (overflow "TaskV1 remaining record count underflow")
  let remainingBytes ← checkedSub s.remainingBytes record.encodedBytes
    (overflow "TaskV1 remaining byte total underflow")
  return ⟨s.selected ++ [record], s.selectedIds.insert record.taskId (), selectedBytes,
    s.remainingCount - 1, remainingBytes⟩

/-- The selection loop with its exits. -/
def selectFrom : Selection → List TerminalTaskArchiveRecord → Outcome Selection
  | s, [] => .ok s
  | s, record :: records =>
    if Fits policy s.remainingCount s.remainingBytes then .ok s
    else if legalHolds.get record.taskId ≠ none then selectFrom s records
    else do
      let prunable ← record.firstPrunableHeight
      if currentHeight < prunable then selectFrom s records
      else if s.selected.length = policy.maximumArchiveBatchRecords.toNat then .ok s
      else do
        let selectedBytes ← checkedAdd s.selectedBytes record.encodedBytes
          (overflow "TaskV1 selected archive byte total overflow")
        if policy.maximumArchiveBatchBytes < selectedBytes then selectFrom s records
        else do
          let next ← pick s record selectedBytes
          selectFrom next records

end

/-! ## Plans -/

section
variable (sha256 : Bytes → Hash) (policy : TaskArchivePolicy)

def sealSelection (currentHeight batchSequence : U64) (previousSealHash : Hash) (s : Selection) :
    Outcome TaskArchiveBatch := do
  let hashes ← s.selected.mapM (·.recordHash sha256)
  let totalCharge ← s.selected.foldlM (fun total record =>
    checkedAdd total record.retentionChargePaid
    (overflow "TaskV1 selected archive charge total overflow")) (0 : U128)
  let first ← getOr s.selected.head?
    (.coded .conflict "TaskV1 archive pressure exists but no record is prunable")
  let last ← getOr s.selected.getLast?
    (.coded .conflict "TaskV1 archive pressure exists but no record is prunable")
  let policyHash ← policy.policyHash sha256
  require (s.selected.length < 2 ^ 32)
    (overflow "TaskV1 selected archive count conversion overflow")
  let recordsRoot ← merkleRoot sha256 hashes
  let batch : TaskArchiveBatch := ⟨⟨schemaVersionV1, policy.context, policyHash, currentHeight,
    batchSequence, previousSealHash, first.terminalHeight, last.terminalHeight, first.taskId,
    last.taskId, BitVec.ofNat 32 s.selected.length, s.selectedBytes, totalCharge, recordsRoot⟩,
    s.selected⟩
  batch.validate sha256 policy
  return batch

/-- The part behind the checks of the records. -/
def planPruning (legalHolds : TaskIdSet) (currentHeight batchSequence : U64)
    (previousSealHash : Hash) (canonical : List TerminalTaskArchiveRecord) (liveBytes : U64) :
    Outcome TaskArchivePlan := do
  require (batchSequence ≠ 0)
    (.coded .invalidBounds "TaskV1 archive batch sequence must be positive")
  let s ← selectFrom policy legalHolds currentHeight ⟨[], ∅, 0, canonical.length, liveBytes⟩
    canonical
  require (Fits policy s.remainingCount s.remainingBytes)
    (.coded .conflict ("TaskV1 live archive capacity cannot be restored without violating " ++
      "retention, hold, or batch bounds"))
  let batch ← sealSelection sha256 policy currentHeight batchSequence previousSealHash s
  return ⟨canonical.filter fun record => s.selectedIds.get record.taskId = none, some batch⟩

/-- What is done with the records in their canonical order. -/
def planCanonical (legalHolds : TaskIdSet) (currentHeight batchSequence : U64)
    (previousSealHash : Hash) (canonical : List TerminalTaskArchiveRecord) :
    Outcome TaskArchivePlan := do
  let (seen, liveBytes) ← canonical.foldlM (countLive policy currentHeight) (∅, 0)
  require (∀ id ∈ legalHolds.keys, seen.get id ≠ none)
    (.coded .notFound "TaskV1 legal hold references a record outside the candidate set")
  if Fits policy canonical.length liveBytes then return ⟨canonical, none⟩
  else
    planPruning sha256 policy legalHolds currentHeight batchSequence previousSealHash canonical
      liveBytes

def planTaskArchivePruning (records : List TerminalTaskArchiveRecord) (legalHolds : TaskIdSet)
    (currentHeight batchSequence : U64) (previousSealHash : Hash) : Outcome TaskArchivePlan := do
  policy.validate
  planCanonical sha256 policy legalHolds currentHeight batchSequence previousSealHash
    (canonicalOrder records)

end

/-! ## What the loops give -/

def bytesOf (records : List TerminalTaskArchiveRecord) : Nat :=
  (records.map fun r => r.encodedBytes.toNat).sum

theorem bytesOf_perm (h : l.Perm l') : bytesOf l = bytesOf l' :=
  (h.map _).sum_eq

theorem bytesOf_append (l l' : List TerminalTaskArchiveRecord) :
    bytesOf (l ++ l') = bytesOf l + bytesOf l' := by
  rw [bytesOf, List.map_append, List.sum_append]
  rfl

variable {records : List TerminalTaskArchiveRecord}

section
variable {policy : TaskArchivePolicy} {legalHolds : TaskIdSet} {currentHeight : U64}

theorem foldlM_countLive (h : records.foldlM (countLive policy currentHeight) seen = .ok seen') :
    (∀ record ∈ records, seen.1.get record.taskId = none) ∧
      (records.Pairwise fun r r' => r.taskId ≠ r'.taskId) ∧
      seen'.2.toNat = seen.2.toNat + bytesOf records := by
  induction records generalizing seen with
  | nil =>
    cases h
    exact ⟨by simp, .nil, rfl⟩
  | cons record records ih =>
    rw [List.foldlM_cons, bind_eq_ok] at h
    obtain ⟨next, hstep, h⟩ := h
    obtain ⟨hnone, hdistinct, hbytes⟩ := ih h
    simp only [countLive, bind_eq_ok, require_eq_ok, pure_eq_ok, checkedAdd_eq_ok] at hstep
    obtain ⟨_, -, _, hnew, liveBytes, hlive, rfl⟩ := hstep
    have hold := new_of_insert hnone
    refine ⟨List.forall_mem_cons.mpr ⟨hnew, fun r hr => (hold r hr).2⟩,
      List.pairwise_cons.mpr ⟨fun r hr => (hold r hr).1, hdistinct⟩, ?_⟩
    rw [hbytes, hlive, Nat.add_assoc]
    rfl

/-- What the selection loop has added when it ends. -/
structure Picked (policy : TaskArchivePolicy) (legalHolds : TaskIdSet) (currentHeight : U64)
    (records : List TerminalTaskArchiveRecord) (s s' : Selection)
    (picked : List TerminalTaskArchiveRecord) : Prop where
  selected : s'.selected = s.selected ++ picked
  sublist : picked.Sublist records
  prunable : ∀ r ∈ picked, legalHolds.get r.taskId = none ∧ r.retentionPaidThroughHeight.toNat <
    currentHeight.toNat
  ids : ∀ id, s'.selectedIds.get id = none ↔ s.selectedIds.get id = none ∧ ∀ r ∈ picked,
    r.taskId ≠ id
  bytes : s'.selectedBytes.toNat = s.selectedBytes.toNat + bytesOf picked
  count : s'.remainingCount + picked.length = s.remainingCount
  left : s'.remainingBytes.toNat + bytesOf picked = s.remainingBytes.toNat
  room : s.selected.length ≤ policy.maximumArchiveBatchRecords.toNat →
    s'.selected.length ≤ policy.maximumArchiveBatchRecords.toNat
  small : s.selectedBytes ≤ policy.maximumArchiveBatchBytes →
    s'.selectedBytes ≤ policy.maximumArchiveBatchBytes

theorem Picked.nothing (records : List TerminalTaskArchiveRecord) (s : Selection) :
    Picked policy legalHolds currentHeight records s s [] :=
  ⟨by simp, List.nil_sublist _, by simp, by simp, rfl, rfl, rfl, id, id⟩

section
variable {record : TerminalTaskArchiveRecord} {records picked : List TerminalTaskArchiveRecord}
  {s next s' : Selection}

theorem Picked.skip (h : Picked policy legalHolds currentHeight records s s' picked) :
    Picked policy legalHolds currentHeight (record :: records) s s' picked :=
  { h with sublist := h.sublist.cons record }

theorem Picked.pick (hhold : legalHolds.get record.taskId = none)
    (helapsed : record.retentionPaidThroughHeight.toNat < currentHeight.toNat)
    (hroom : s.selected.length ≠ policy.maximumArchiveBatchRecords.toNat)
    (hbytes : selectedBytes.toNat = s.selectedBytes.toNat + record.encodedBytes.toNat)
    (hsmall : ¬ policy.maximumArchiveBatchBytes < selectedBytes)
    (hpick : TaskArchive.pick s record selectedBytes = .ok next)
    (h : Picked policy legalHolds currentHeight records next s' picked) :
    Picked policy legalHolds currentHeight (record :: records) s s' (record :: picked) := by
  simp only [TaskArchive.pick, bind_eq_ok, require_eq_ok, pure_eq_ok, checkedSub_eq_ok] at hpick
  obtain ⟨_, hcount, left, hleft, rfl⟩ := hpick
  have hcons : bytesOf (record :: picked) = record.encodedBytes.toNat + bytesOf picked := rfl
  refine ⟨?_, h.sublist.cons_cons record, List.forall_mem_cons.mpr ⟨⟨hhold, helapsed⟩, h.prunable⟩,
    fun id => ?_, ?_, ?_, ?_, fun hle => h.room ?_, fun _ => h.small ?_⟩
  · rw [h.selected, List.append_assoc, List.singleton_append]
  · rw [h.ids id, OrdMap.get_insert, List.forall_mem_cons]
    split
    · next heq => simp [heq]
    · next hne => simp [hne]
  · have := h.bytes
    dsimp only at this
    omega
  · have := h.count
    dsimp only at this
    rw [List.length_cons]
    omega
  · have := h.left
    dsimp only at this
    omega
  · simp only [List.length_append, List.length_singleton]
    omega
  · exact BitVec.not_lt.mp hsmall

end

theorem selectFrom_picked (h : selectFrom policy legalHolds currentHeight s records = .ok s') :
    ∃ picked, Picked policy legalHolds currentHeight records s s' picked := by
  induction records generalizing s with
  | nil =>
    cases h
    exact ⟨[], .nothing ..⟩
  | cons record records ih =>
    -- the exits and the skipped records come first, in the order of the loop
    rw [selectFrom] at h
    split at h
    · cases h
      exact ⟨[], .nothing ..⟩
    split at h
    · obtain ⟨picked, hpicked⟩ := ih h
      exact ⟨picked, hpicked.skip⟩
    next hhold =>
    simp only [bind_eq_ok, TerminalTaskArchiveRecord.firstPrunableHeight, checkedAdd_eq_ok] at h
    obtain ⟨prunable, hprunable, h⟩ := h
    split at h
    · obtain ⟨picked, hpicked⟩ := ih h
      exact ⟨picked, hpicked.skip⟩
    next helapsed =>
    split at h
    · cases h
      exact ⟨[], .nothing ..⟩
    next hroom =>
    simp only [bind_eq_ok, checkedAdd_eq_ok] at h
    obtain ⟨selectedBytes, hbytes, h⟩ := h
    split at h
    · obtain ⟨picked, hpicked⟩ := ih h
      exact ⟨picked, hpicked.skip⟩
    next hsmall =>
    rw [bind_eq_ok] at h
    obtain ⟨next, hpick, h⟩ := h
    obtain ⟨picked, hpicked⟩ := ih h
    have hlt : record.retentionPaidThroughHeight.toNat < currentHeight.toNat := by
      have hle := BitVec.le_def.mp (BitVec.not_lt.mp helapsed)
      have hone : (1 : U64).toNat = 1 := rfl
      omega
    exact ⟨record :: picked, .pick (not_not.mp hhold) hlt hroom hbytes hsmall hpick hpicked⟩

end

/-! ## The canonical order -/

instance : Std.Total KeyLe := ⟨fun a b => le_total a.key b.key⟩

instance : IsTrans TerminalTaskArchiveRecord KeyLe :=
  ⟨fun _ _ _ h h' => le_trans (α := U64 ×ₗ TaskId) h h'⟩

theorem canonicalOrder_perm (records : List TerminalTaskArchiveRecord) :
    (canonicalOrder records).Perm records :=
  List.perm_insertionSort KeyLe records

/-- The order of the records does not matter where their keys tell them apart. -/
theorem canonicalOrder_congr (h : records.Perm records')
    (hkeys : ∀ a ∈ records, ∀ b ∈ records, a.key = b.key → a = b) :
    canonicalOrder records' = canonicalOrder records := by
  have hperm : (canonicalOrder records').Perm (canonicalOrder records) :=
    ((canonicalOrder_perm records').trans h.symm).trans (canonicalOrder_perm records).symm
  have hmem {a : TerminalTaskArchiveRecord} (ha : a ∈ canonicalOrder records) : a ∈ records :=
    (canonicalOrder_perm records).mem_iff.mp ha
  refine hperm.eq_of_pairwise (fun a b ha hb hab hba => ?_)
    (List.pairwise_insertionSort KeyLe records') (List.pairwise_insertionSort KeyLe records)
  exact hkeys a (hmem (hperm.mem_iff.mp ha)) b (hmem hb) (le_antisymm hab hba)

/-! ## Plans partition the records -/

def TaskArchivePlan.archived (plan : TaskArchivePlan) : List TerminalTaskArchiveRecord :=
  plan.archiveBatch.elim [] (·.records)

/-- Dropping a sublist of different records leaves the others. -/
theorem filter_append_perm {l picked : List TerminalTaskArchiveRecord}
    (hl : l.Nodup) (hsub : picked.Sublist l) (hp : ∀ r ∈ l, p r = true ↔ r ∉ picked) :
    (l.filter p ++ picked).Perm l := by
  induction hsub with
  | slnil => simp
  | @cons picked l r hsub ih =>
    obtain ⟨hr, hl⟩ := List.nodup_cons.mp hl
    obtain ⟨hpr, hp⟩ := List.forall_mem_cons.mp hp
    rw [List.filter_cons_of_pos (hpr.mpr fun hmem => hr (hsub.subset hmem)), List.cons_append]
    exact (ih hl hp).cons r
  | @cons_cons picked l r hsub ih =>
    obtain ⟨hr, hl⟩ := List.nodup_cons.mp hl
    obtain ⟨hpr, hp⟩ := List.forall_mem_cons.mp hp
    rw [List.filter_cons_of_neg fun htrue => hpr.mp htrue List.mem_cons_self]
    refine List.perm_middle.trans ((ih hl fun q hq => ?_).cons r)
    rw [hp q hq, List.mem_cons, not_or]
    exact and_iff_right fun heq => hr (heq ▸ hq)

/-- What holds of every plan for records in their canonical order. -/
structure Partition (sha256 : Bytes → Hash) (policy : TaskArchivePolicy) (legalHolds : TaskIdSet)
    (currentHeight : U64) (records : List TerminalTaskArchiveRecord) (plan : TaskArchivePlan) :
    Prop where
  perm : (plan.retainedRecords ++ plan.archived).Perm records
  distinct : (records.map (·.taskId)).Nodup
  prunable : ∀ r ∈ plan.archived, legalHolds.get r.taskId = none ∧
    ¬ currentHeight ≤ r.retentionPaidThroughHeight
  live : plan.retainedRecords.length ≤ policy.maximumLiveTerminalRecords.toNat ∧
    bytesOf plan.retainedRecords ≤ policy.maximumLiveTerminalBytes.toNat
  batch : plan.archived.length ≤ policy.maximumArchiveBatchRecords.toNat ∧
    bytesOf plan.archived ≤ policy.maximumArchiveBatchBytes.toNat
  idle : records.length ≤ policy.maximumLiveTerminalRecords.toNat →
    bytesOf records ≤ policy.maximumLiveTerminalBytes.toNat → plan.archiveBatch = none
  verified : ∀ batch ∈ plan.archiveBatch, batch.validate sha256 policy = .ok () ∧
    verifyTaskArchiveBatch sha256 policy batch = .ok ()

section
variable {sha256 : Bytes → Hash} {policy : TaskArchivePolicy} {legalHolds : TaskIdSet}
  {currentHeight batchSequence : U64} {previousSealHash : Hash}
  {canonical : List TerminalTaskArchiveRecord}
  {plan : TaskArchivePlan}

theorem verifyTaskArchiveBatch_of_validate (h : batch.validate sha256 policy = .ok ()) :
    verifyTaskArchiveBatch sha256 policy batch = .ok () := by
  obtain ⟨hashes, hvalid⟩ := valid_of_validate h
  rw [verifyTaskArchiveBatch, h, bind_of_ok rfl]
  exact forM_eq_ok.mpr fun record hmem =>
    verifyRetentionElapsed_eq_ok.mpr (hvalid.checked.elapsed record hmem)

theorem sealSelection_eq_ok
    (h : sealSelection sha256 policy currentHeight batchSequence previousSealHash s = .ok batch) :
    batch.records = s.selected ∧ batch.validate sha256 policy = .ok () := by
  simp only [sealSelection, bind_eq_ok, pure_eq_ok] at h
  obtain ⟨_, -, _, -, _, -, _, -, _, -, _, -, _, -, _, hvalidate, rfl⟩ := h
  exact ⟨rfl, hvalidate⟩

theorem partition_of_planPruning {liveBytes : U64}
    (hdistinct : canonical.Pairwise fun r r' => r.taskId ≠ r'.taskId)
    (hbytes : liveBytes.toNat = bytesOf canonical)
    (hfull : ¬ Fits policy canonical.length liveBytes)
      (h : planPruning sha256 policy legalHolds currentHeight batchSequence previousSealHash
      canonical liveBytes =
      .ok plan) : Partition sha256 policy legalHolds currentHeight canonical plan := by
  simp only [planPruning, bind_eq_ok, require_eq_ok, pure_eq_ok] at h
  obtain ⟨_, -, s, hselect, _, hfits, batch, hbatch, rfl⟩ := h
  obtain ⟨picked, hpicked⟩ := selectFrom_picked hselect
  obtain ⟨hrecords, hvalidate⟩ := sealSelection_eq_ok hbatch
  have hids : (canonical.map (·.taskId)).Nodup := List.pairwise_map.mpr hdistinct
  have hselected : s.selected = picked := by simpa using hpicked.selected
  have hkept : ∀ r ∈ canonical, decide (s.selectedIds.get r.taskId = none) = true ↔ r ∉ picked := by
    intro r hr
    rw [decide_eq_true_iff, hpicked.ids]
    constructor
    · rintro ⟨-, hne⟩ hmem
      exact hne r hmem rfl
    · refine fun hmem => ⟨rfl, fun q hq heq => hmem ?_⟩
      exact List.inj_on_of_nodup_map hids (hpicked.sublist.subset hq) hr heq ▸ hq
  have hperm := filter_append_perm hids.of_map hpicked.sublist hkept
  have hcount := hperm.length_eq
  have hsum := bytesOf_perm hperm
  rw [List.length_append] at hcount
  rw [bytesOf_append] at hsum
  have hleft := hpicked.count
  have hleftBytes := hpicked.left
  dsimp only at hleft hleftBytes
  have hfitsBytes := BitVec.le_def.mp hfits.2
  have harchived : TaskArchivePlan.archived
      ⟨canonical.filter fun r => s.selectedIds.get r.taskId = none, some batch⟩ = picked :=
    hrecords.trans hselected
  refine ⟨by rw [harchived]; exact hperm, hids, ?_, ⟨?_, ?_⟩, ?_, ?_, ?_⟩
  · rw [harchived]
    exact fun r hr => ⟨(hpicked.prunable r hr).1, fun hle => by
      have := (hpicked.prunable r hr).2
      have := BitVec.le_def.mp hle
      omega⟩
  · have := hfits.1
    dsimp only
    omega
  · dsimp only
    omega
  · rw [harchived]
    have hroom := hpicked.room (Nat.zero_le _)
    have hsmall := BitVec.le_def.mp (hpicked.small (BitVec.le_def.mpr (Nat.zero_le _)))
    have htotal := hpicked.bytes
    rw [hselected] at hroom
    exact ⟨hroom, le_trans (by rw [htotal]; exact Nat.le_add_left ..) hsmall⟩
  · exact fun hlength hlive => absurd ⟨hlength, BitVec.le_def.mpr (hbytes ▸ hlive)⟩ hfull
  · intro b hb
    obtain rfl := Option.some.inj hb
    exact ⟨hvalidate, verifyTaskArchiveBatch_of_validate hvalidate⟩

theorem partition_of_planCanonical
    (h : planCanonical sha256 policy legalHolds currentHeight batchSequence previousSealHash
      canonical = .ok plan) :
    Partition sha256 policy legalHolds currentHeight canonical plan := by
  simp only [planCanonical, bind_eq_ok, require_eq_ok] at h
  obtain ⟨seen, hseen, _, -, h⟩ := h
  obtain ⟨-, hdistinct, hbytes⟩ := foldlM_countLive hseen
  have hbytes : seen.2.toNat = bytesOf canonical := by
    rw [hbytes]
    exact Nat.zero_add _
  split at h
  · next hfits =>
    obtain rfl := Except.ok.inj h
    refine ⟨by rw [TaskArchivePlan.archived]; simp, List.pairwise_map.mpr hdistinct,
      by simp [TaskArchivePlan.archived], ⟨hfits.1, hbytes ▸ BitVec.le_def.mp hfits.2⟩,
      ⟨Nat.zero_le _, Nat.zero_le _⟩, fun _ _ => rfl, by simp⟩
  · next hfull => exact partition_of_planPruning hdistinct hbytes hfull h

theorem Partition.of_perm (hperm : canonical.Perm records)
    (h : Partition sha256 policy legalHolds currentHeight canonical plan) :
    Partition sha256 policy legalHolds currentHeight records plan :=
  ⟨h.perm.trans hperm, (hperm.map _).nodup_iff.mp h.distinct, h.prunable, h.live, h.batch,
    fun hlength hbytes => h.idle (hperm.length_eq ▸ hlength) (bytesOf_perm hperm ▸ hbytes),
    h.verified⟩

end

/-- A plan partitions the records within its limits, whatever their order is. -/
theorem plans_partition_in_any_order (sha256 : Bytes → Hash) (policy : TaskArchivePolicy)
    (records : List TerminalTaskArchiveRecord) (legalHolds : TaskIdSet)
    (currentHeight batchSequence : U64) (previousSealHash : Hash) :
    (∀ plan, planTaskArchivePruning sha256 policy records legalHolds currentHeight batchSequence
        previousSealHash = .ok plan →
      Partition sha256 policy legalHolds currentHeight records plan ∧ ∀ records',
        records.Perm records' →
        planTaskArchivePruning sha256 policy records' legalHolds currentHeight batchSequence
          previousSealHash = .ok plan) ∧
    ∀ records', records.Perm records' →
      (∀ a ∈ records, ∀ b ∈ records, a.terminalHeight = b.terminalHeight →
        a.taskId = b.taskId → a = b) →
      planTaskArchivePruning sha256 policy records' legalHolds currentHeight batchSequence
        previousSealHash =
        planTaskArchivePruning sha256 policy records legalHolds currentHeight batchSequence
          previousSealHash := by
  have hcongr : ∀ records', records.Perm records' →
      (∀ a ∈ records, ∀ b ∈ records, a.terminalHeight = b.terminalHeight →
        a.taskId = b.taskId → a = b) →
      planTaskArchivePruning sha256 policy records' legalHolds currentHeight batchSequence
        previousSealHash =
        planTaskArchivePruning sha256 policy records legalHolds currentHeight batchSequence
          previousSealHash := by
    intro records' hperm hkeys
    have horder := canonicalOrder_congr hperm fun a ha b hb hkey => by
      obtain ⟨hheight, hid⟩ := Prod.mk.inj (toLex.injective hkey)
      exact hkeys a ha b hb hheight hid
    rw [planTaskArchivePruning, horder, planTaskArchivePruning]
  refine ⟨fun plan hplan => ?_, hcongr⟩
  have h := hplan
  rw [planTaskArchivePruning, bind_eq_ok] at h
  obtain ⟨_, -, h⟩ := h
  have hpartition := (partition_of_planCanonical h).of_perm (canonicalOrder_perm records)
  refine ⟨hpartition, fun records' hperm => (hcongr records' hperm fun a ha b hb _ hid =>
    ?_).trans hplan⟩
  exact List.inj_on_of_nodup_map hpartition.distinct ha hb hid

def sampleHolds : TaskIdSet := OrdMap.ofList [(Hash.ofByte 1, ())]

def samplePlan : TaskArchivePlan :=
  (planTaskArchivePruning Hash.checksum samplePolicy sampleRecords sampleHolds 100 1
    Hash.zero).toOption.getD ⟨[], none⟩

/-- The oldest record is held, so the two younger ones are archived. -/
theorem sampleRecords_planned :
    samplePlan.retainedRecords = [sampleRecord 1 10] ∧
      samplePlan.archived = [sampleRecord 2 11, sampleRecord 3 12] ∧
      Partition Hash.checksum samplePolicy sampleHolds 100 sampleRecords samplePlan ∧
      planTaskArchivePruning Hash.checksum samplePolicy [sampleRecord 2 11, sampleRecord 1 10,
        sampleRecord 3 12] sampleHolds 100 1 Hash.zero = .ok samplePlan := by
  obtain ⟨hplan, -⟩ := plans_partition_in_any_order Hash.checksum samplePolicy sampleRecords
    sampleHolds 100 1 Hash.zero
  obtain ⟨hpartition, horder⟩ := hplan samplePlan (by decide +kernel)
  exact ⟨by decide +kernel, by decide +kernel, hpartition, horder _ (.swap ..)⟩

def foreignRecord : TerminalTaskArchiveRecord :=
  { sampleRecord 1 10 with context := ⟨Hash.zero, [], 1, Hash.zero⟩ }

def emptyRecord : TerminalTaskArchiveRecord := { sampleRecord 1 10 with encodedBytes := 0 }

/-- Two records of one task at one height that are both invalid: the first one in the list names the
error. -/
theorem plan_error_depends_on_order :
    [foreignRecord, emptyRecord].Perm [emptyRecord, foreignRecord] ∧
    planTaskArchivePruning Hash.checksum samplePolicy [foreignRecord, emptyRecord] ∅ 100 1
      Hash.zero =
      .error (.coded .invalidContext "terminal TaskV1 archive record context differs from policy") ∧
    planTaskArchivePruning Hash.checksum samplePolicy [emptyRecord, foreignRecord] ∅ 100 1
      Hash.zero =
      .error (.coded .invalidBounds "terminal TaskV1 archive record height/size is invalid") :=
  ⟨.swap .., by decide +kernel, by decide +kernel⟩

end Trillionnium.TaskArchive
