import Trillionnium.StateImport.Delta

/-!
# Deltas invert differences

What an accepted delta does to the base rows, key by key (`applyIncrementalDelta_eq_ok`), and that
the delta derived from two states leads from the one to the other.
-/

namespace Trillionnium.StateImport

open Lib Pon

namespace TargetDeltaRow

theorem placed : Rows.Placed TargetRow.rowKey rowKey put := by
  intro entry row h
  obtain ⟨value, -, rfl⟩ := Option.map_eq_some_iff.mp h
  rfl

theorem marks (sha256 : Bytes → Hash) :
    Rows.Marks TargetRow.rowKey rowKey put (remove sha256) (set sha256) where
  place_remove _ := rfl
  place_set _ := rfl
  put_remove _ := rfl
  put_set _ := rfl

theorem map_value_put (entry : TargetDeltaRow) : entry.put.map TargetRow.value = entry.value := by
  rw [put, Option.map_map]
  exact Option.map_id'

end TargetDeltaRow

/-- The entry of a list of mutations at a key. -/
def entryAt (k : RowKey) (entries : List TargetDeltaRow) : Option TargetDeltaRow :=
  Rows.find TargetDeltaRow.rowKey k entries

section
variable {k : RowKey} {entries : List TargetDeltaRow} {baseRows targetRows : List TargetRow}

/-- Listed keys are set or removed, and the others are left. -/
theorem valueAt_applyEntries (hentries : Rows.Sorted TargetDeltaRow.rowKey entries)
    (hbase : Rows.Sorted TargetRow.rowKey baseRows) : valueAt k (applyEntries entries baseRows) =
      (entryAt k entries).elim (valueAt k baseRows) TargetDeltaRow.value := by
  rw [valueAt, applyEntries, Rows.find_edit TargetDeltaRow.placed hentries hbase, entryAt]
  cases Rows.find TargetDeltaRow.rowKey k entries with
  | none => rfl
  | some entry => exact entry.map_value_put

theorem sorted_applyEntries (hentries : Rows.Sorted TargetDeltaRow.rowKey entries)
    (hbase : Rows.Sorted TargetRow.rowKey baseRows) :
    Rows.Sorted TargetRow.rowKey (applyEntries entries baseRows) :=
  Rows.Sorted.edit TargetDeltaRow.placed hentries hbase

variable {sha256 : Bytes → Hash}

/-- At one key rows are told apart by their values. -/
theorem find_eq_iff_valueAt :
    Rows.find TargetRow.rowKey k baseRows = Rows.find TargetRow.rowKey k targetRows ↔
    valueAt k baseRows = valueAt k targetRows := by
  rw [valueAt, valueAt]
  refine ⟨fun h => by rw [h], fun h => ?_⟩
  cases hb : Rows.find TargetRow.rowKey k baseRows with
  | none =>
    rw [hb, Option.map_none] at h
    exact (Option.map_eq_none_iff.mp h.symm).symm
  | some base =>
    rw [hb, Option.map_some] at h
    obtain ⟨target, ht, hvalue⟩ := Option.map_eq_some_iff.mp h.symm
    rw [ht, TargetRow.eq_of_rowKey ((Rows.key_of_find hb).trans (Rows.key_of_find ht).symm)
      hvalue.symm]

variable (hbase : Rows.Sorted TargetRow.rowKey baseRows)
  (htarget : Rows.Sorted TargetRow.rowKey targetRows)
include hbase htarget

theorem sorted_deriveEntries :
    Rows.Sorted TargetDeltaRow.rowKey (deriveEntries sha256 baseRows targetRows) :=
  Rows.sorted_diff (TargetDeltaRow.marks sha256) hbase htarget

/-- Exactly the keys where the states differ are listed, each with what the target holds there. -/
theorem value_entryAt_deriveEntries :
    (entryAt k (deriveEntries sha256 baseRows targetRows)).map TargetDeltaRow.value =
      if valueAt k baseRows = valueAt k targetRows then none else some (valueAt k targetRows) := by
  have hfind := Rows.find_diff (TargetDeltaRow.marks sha256) (k := k) hbase htarget le_rfl
  have hvalue := congrArg (Option.map (Option.map TargetRow.value)) hfind
  rw [Option.map_map, show Option.map TargetRow.value ∘ TargetDeltaRow.put =
      TargetDeltaRow.value from
    funext TargetDeltaRow.map_value_put] at hvalue
  rw [entryAt, deriveEntries, hvalue]
  simp only [find_eq_iff_valueAt]
  split <;> rfl

theorem applyEntries_deriveEntries :
    applyEntries (deriveEntries sha256 baseRows targetRows) baseRows = targetRows :=
  Rows.edit_diff (TargetDeltaRow.marks sha256) TargetDeltaRow.placed hbase htarget le_rfl

omit hbase htarget

/-- The entries of a derived delta pass their own check. -/
theorem validate_deriveEntries (hbase : ∀ row ∈ baseRows, row.validate = .ok ())
    (htarget : ∀ row ∈ targetRows, row.validate = .ok ()) :
    ∀ entry ∈ deriveEntries sha256 baseRows targetRows, entry.validate sha256 = .ok () := by
  intro entry hentry
  rcases Rows.mem_diff hentry with ⟨row, hrow, rfl⟩ | ⟨row, hrow, rfl⟩
  · obtain ⟨⟨hs, hs', hk, hk', -⟩, hfree⟩ := require_eq_ok.mp (hbase row hrow)
    exact require_eq_ok.mpr ⟨⟨hs, hs', hk, hk', Nat.zero_le _⟩, hfree, rfl⟩
  · obtain ⟨hbounds, hfree⟩ := require_eq_ok.mp (htarget row hrow)
    exact require_eq_ok.mpr ⟨hbounds, hfree, rfl⟩

end

/-! ## The functions -/

section
variable {sha256 : Bytes → Hash} {R : Type} {rootBuilder : RootBuilder R}
  {delta : IncrementalStateDelta} {sourceContext targetContext : SourceCheckpointContext}
  {planDigest targetSchemaDigest : Hash} {baseRows targetRows output : List TargetRow}

theorem checkState_eq_ok {rows : List TargetRow} {rowCount : U64} {rowsDigest stateRoot : Hash}
    {mismatch : MigrationError} {u : Unit} :
    checkState sha256 rootBuilder targetSchemaDigest rows rowCount rowsDigest stateRoot mismatch =
      .ok u ↔ rows.length = rowCount.toNat ∧ targetRowsDigest sha256 rows = rowsDigest ∧
        rootBuilder targetSchemaDigest rows = .ok stateRoot := by
  simp only [checkState, bind_eq_ok, require_eq_ok, mapError_eq_ok]
  constructor
  · rintro ⟨-, ⟨hcount, hdigest⟩, root, hroot, rfl⟩
    exact ⟨hcount, hdigest, hroot⟩
  · rintro ⟨hcount, hdigest, hroot⟩
    exact ⟨(), ⟨hcount, hdigest⟩, stateRoot, hroot, rfl⟩

theorem applyIncrementalDelta_eq_ok :
    applyIncrementalDelta sha256 rootBuilder delta sourceContext targetContext baseRows =
      .ok output ↔
      delta.validate sha256 = .ok () ∧
      (delta.sourceContext = sourceContext ∧ delta.targetContext = targetContext) ∧
      validateTargetRows baseRows = .ok () ∧ (baseRows.length = delta.baseRowCount.toNat ∧
        targetRowsDigest sha256 baseRows = delta.baseRowsDigest ∧
        rootBuilder delta.targetSchemaDigest baseRows = .ok delta.baseStateRoot) ∧
      output = applyEntries delta.entries baseRows ∧ validateTargetRows output = .ok () ∧
      output.length = delta.targetRowCount.toNat ∧ targetRowsDigest sha256 output =
        delta.targetRowsDigest ∧
        rootBuilder delta.targetSchemaDigest output = .ok delta.targetStateRoot := by
  simp only [applyIncrementalDelta, bind_eq_ok, mapError_eq_ok, require_eq_ok, checkState_eq_ok,
    pure_eq_ok]
  constructor
  · rintro ⟨⟨⟩, hvalid, -, hcontexts, ⟨⟩, hrows, -, hstate, ⟨⟩, hout, -, hout', rfl⟩
    exact ⟨hvalid, hcontexts, hrows, hstate, rfl, hout, hout'⟩
  · rintro ⟨hvalid, hcontexts, hrows, hstate, rfl, hout, hout'⟩
    exact ⟨(), hvalid, (), hcontexts, (), hrows, (), hstate, (), hout, (), hout', rfl⟩

def deriveMessages (sha256 : Bytes → Hash) (baseRows targetRows : List TargetRow) : List Bytes :=
  let entries := deriveEntries sha256 baseRows targetRows
  [targetRowsMessage sha256 baseRows, targetRowsMessage sha256 targetRows,
    message "trnm.migration.empty-delta-root.v0" []] ++
  entries.map (fun entry => TargetDeltaRow.message entry.space entry.key entry.value) ++
  nodeMessages sha256 "trnm.migration.incremental-delta-node.v0"
    (entries.map TargetDeltaRow.operationDigest)

theorem deriveIncrementalDelta_eq_ok
    (h : deriveIncrementalDelta sha256 rootBuilder planDigest targetSchemaDigest sourceContext
      targetContext baseRows targetRows = .ok delta)
    (hsha : ∀ m ∈ deriveMessages sha256 baseRows targetRows, sha256 m ≠ .zero) :
    delta.entries = deriveEntries sha256 baseRows targetRows ∧
      validateTargetRows baseRows = .ok () ∧ validateTargetRows targetRows = .ok () ∧
      applyIncrementalDelta sha256 rootBuilder delta sourceContext targetContext baseRows =
        .ok targetRows := by
  simp only [deriveIncrementalDelta, bind_eq_ok, mapError_eq_ok, require_eq_ok, pure_eq_ok] at h
  obtain ⟨-, ⟨hplan, hschema⟩, ⟨⟩, hsource, ⟨⟩, htarget, ⟨⟩, hbaseRows, ⟨⟩, htargetRows, baseRoot,
    hbaseRoot, targetRoot, htargetRoot, -, ⟨hbaseZero, htargetZero⟩, -,
    ⟨hfollows, hbaseIs, htargetIs⟩, -, hcount, rfl⟩ := h
  obtain ⟨hbaseCount, hbaseValid, hbaseSorted⟩ := validateTargetRows_eq_ok.mp hbaseRows
  obtain ⟨htargetCount, htargetValid, htargetSorted⟩ := validateTargetRows_eq_ok.mp htargetRows
  have hlength : ∀ {rows : List TargetRow}, rows.length ≤ maxExportRows →
      (BitVec.ofNat 64 rows.length).toNat = rows.length := by
    intro rows hrows
    rw [maxExportRows] at hrows
    rw [BitVec.toNat_ofNat, Nat.mod_eq_of_lt (by omega)]
  have happly : applyEntries (deriveEntries sha256 baseRows targetRows) baseRows = targetRows :=
    applyEntries_deriveEntries hbaseSorted htargetSorted
  refine ⟨rfl, hbaseRows, htargetRows, applyIncrementalDelta_eq_ok.mpr
    ⟨?_, ⟨rfl, rfl⟩, hbaseRows, ⟨(hlength hbaseCount).symm, rfl, hbaseRoot⟩, happly.symm,
      htargetRows, (hlength htargetCount).symm, rfl, htargetRoot⟩⟩
  -- the delta passes its own check, as none of its digests is zero
  have hvalid : ∀ entry ∈ deriveEntries sha256 baseRows targetRows,
      entry.validate sha256 = .ok () :=
    validate_deriveEntries hbaseValid htargetValid
  have hbaseDigest : targetRowsDigest sha256 baseRows ≠ .zero := hsha _ (by simp [deriveMessages])
  have htargetDigest : targetRowsDigest sha256 targetRows ≠ .zero :=
    hsha _ (by simp [deriveMessages])
  have hroot : incrementalDeltaRoot sha256 ((deriveEntries sha256 baseRows targetRows).map
      TargetDeltaRow.operationDigest) ≠ .zero := by
    refine rootOver_ne_zero (hsha _ (by simp [deriveMessages])) (fun d hd => ?_)
      fun m hm => hsha m (List.mem_append_right _ hm)
    obtain ⟨entry, hentry, rfl⟩ := List.mem_map.mp hd
    obtain ⟨-, -, hdigest⟩ := require_eq_ok.mp (hvalid entry hentry)
    rw [hdigest]
    exact hsha _ (List.mem_append_left _ (List.mem_append_right _ (List.mem_map_of_mem hentry)))
  simp only [IncrementalStateDelta.validate, bind_eq_ok, require_eq_ok, Rows.checkOrdered_eq_ok]
  refine ⟨(), hsource, (), htarget, (), ⟨hplan, hschema, hbaseDigest, hbaseZero, htargetDigest,
    htargetZero, hroot, hcount, ?_, ?_, rfl, hfollows, hbaseIs, htargetIs⟩, (), ⟨hvalid, by simp,
    sorted_deriveEntries hbaseSorted htargetSorted⟩, trivial⟩
  · rwa [hlength hbaseCount]
  · rwa [hlength htargetCount]

end

/-- A derived delta applied to the base state gives the target state, and lists exactly the keys
where the two differ, in strict order, each with what the target holds there. An accepted delta
leaves strictly ordered rows that differ from the base exactly as the delta lists. -/
theorem deltas_invert_differences (sha256 : Bytes → Hash) {R : Type} (rootBuilder : RootBuilder R) :
    (∀ planDigest targetSchemaDigest sourceContext targetContext baseRows targetRows delta,
      (∀ m ∈ deriveMessages sha256 baseRows targetRows, sha256 m ≠ .zero) →
      deriveIncrementalDelta sha256 rootBuilder planDigest targetSchemaDigest sourceContext
        targetContext baseRows targetRows = .ok delta →
      applyIncrementalDelta sha256 rootBuilder delta sourceContext targetContext baseRows =
        .ok targetRows ∧
      Rows.Sorted TargetDeltaRow.rowKey delta.entries ∧
      ∀ k, (entryAt k delta.entries).map TargetDeltaRow.value =
        if valueAt k baseRows = valueAt k targetRows then none else some (valueAt k targetRows)) ∧
    ∀ delta sourceContext targetContext baseRows output,
      applyIncrementalDelta sha256 rootBuilder delta sourceContext targetContext baseRows =
        .ok output →
      Rows.Sorted TargetRow.rowKey output ∧
      ∀ k, valueAt k output = (entryAt k delta.entries).elim (valueAt k baseRows)
        TargetDeltaRow.value := by
  refine ⟨?_, ?_⟩
  · intro planDigest targetSchemaDigest sourceContext targetContext baseRows targetRows delta hsha h
    obtain ⟨hentries, hbase, htarget, happly⟩ := deriveIncrementalDelta_eq_ok h hsha
    obtain ⟨-, -, hbase⟩ := validateTargetRows_eq_ok.mp hbase
    obtain ⟨-, -, htarget⟩ := validateTargetRows_eq_ok.mp htarget
    rw [hentries]
    exact ⟨happly, sorted_deriveEntries hbase htarget, fun k =>
      value_entryAt_deriveEntries hbase htarget⟩
  · intro delta sourceContext targetContext baseRows output h
    obtain ⟨hvalid, -, hbase, -, rfl, -⟩ := applyIncrementalDelta_eq_ok.mp h
    obtain ⟨-, -, hbase⟩ := validateTargetRows_eq_ok.mp hbase
    have hentries := (IncrementalStateDelta.valid_of_validate hvalid).sorted
    exact ⟨sorted_applyEntries hentries hbase, fun k => valueAt_applyEntries hentries hbase⟩

/-! ## One delta -/

/-- A remainder that stands in for SHA-256, never zero. -/
def residue (message : Bytes) : Hash :=
  ⟨Bytes.ofNat 32 (Bytes.toNat message % (2 ^ 255 - 19) + 1), Bytes.length_ofNat ..⟩

def residueRoot : RootBuilder Empty := fun _ rows => .ok (targetRowsDigest residue rows)

def sampleContext (height epoch : U64) (rows : List TargetRow) : SourceCheckpointContext :=
  ⟨.ofByte 1, .ofByte 2, .ofByte 3, .ofByte 4, height, epoch, targetRowsDigest residue rows,
    .ofByte 5, .ofByte 6⟩

def sampleBase : List TargetRow := [⟨[1], [1], [7]⟩, ⟨[1], [2], []⟩]

/-- One row of the base is deleted, one set and one added. -/
def sampleTarget : List TargetRow := [⟨[1], [1], [8]⟩, ⟨[2], [1], [9]⟩]

def deltaBetween (source target : SourceCheckpointContext) (baseRows targetRows : List TargetRow) :
    IncrementalStateDelta :=
  let entries := deriveEntries residue baseRows targetRows
  let delta : IncrementalStateDelta := ⟨.ofByte 7, .ofByte 8, source, target,
    targetRowsDigest residue baseRows, targetRowsDigest residue baseRows,
    targetRowsDigest residue targetRows, targetRowsDigest residue targetRows,
    .ofNat 64 baseRows.length, .ofNat 64 targetRows.length,
    incrementalDeltaRoot residue (entries.map TargetDeltaRow.operationDigest), .zero, entries⟩
  { delta with deltaDigest := delta.canonicalDigest residue }

def sampleDelta : IncrementalStateDelta :=
  deltaBetween (sampleContext 1 1 sampleBase) (sampleContext 2 1 sampleTarget) sampleBase
    sampleTarget

/-- The stand-in tells the messages of a list apart when it does so pair by pair. -/
theorem injOn_residue {l l' : List Bytes}
    (h : ∀ x ∈ l ++ l', ∀ y ∈ l ++ l', residue x = residue y → x = y) :
    Set.InjOn residue {m | m ∈ l ∨ m ∈ l'} :=
  fun x hx y hy => h x (List.mem_append.mpr hx) y (List.mem_append.mpr hy)

theorem sample_delta_leads_to_target : ∃ delta,
    deriveIncrementalDelta residue residueRoot (.ofByte 7) (.ofByte 8)
      (sampleContext 1 1 sampleBase)
      (sampleContext 2 1 sampleTarget) sampleBase sampleTarget = .ok delta ∧
    applyIncrementalDelta residue residueRoot delta (sampleContext 1 1 sampleBase)
      (sampleContext 2 1 sampleTarget) sampleBase = .ok sampleTarget ∧
    Rows.Sorted TargetRow.rowKey sampleTarget := by
  obtain ⟨delta, hderive⟩ : ∃ delta, (deriveIncrementalDelta residue residueRoot (.ofByte 7)
      (.ofByte 8) (sampleContext 1 1 sampleBase) (sampleContext 2 1 sampleTarget) sampleBase
      sampleTarget).toOption = some delta := Option.isSome_iff_exists.mp (by decide +kernel)
  have hderive := toOption_eq_some.mp hderive
  obtain ⟨hinverse, happlied⟩ := deltas_invert_differences residue residueRoot
  have happly := (hinverse _ _ _ _ _ _ delta (by decide +kernel) hderive).1
  exact ⟨delta, hderive, happly, (happlied _ _ _ _ _ happly).1⟩

end Trillionnium.StateImport
