import Trillionnium.StateImport.Inverse

/-!
# What the commitments bind

Under a digest that tells the messages at hand apart, an export header fixes its rows and the digest
of a delta fixes the delta.
-/

namespace Trillionnium.StateImport

open Lib Pon

/-- Lists that are mapped alike are equal, where the map tells their elements apart. -/
theorem eq_of_map_eq {α β : Type} {f : α → β} {l l' : List α}
    (hinj : ∀ a ∈ l, ∀ b ∈ l', f a = f b → a = b) (h : l.map f = l'.map f) : l = l' := by
  induction l generalizing l' with
  | nil => exact (List.map_eq_nil_iff.mp h.symm).symm
  | cons a l ih =>
    obtain ⟨b, l', rfl, hb, hl⟩ := List.map_eq_cons_iff.mp h.symm
    rw [hinj a List.mem_cons_self b List.mem_cons_self hb.symm,
      ih (fun x hx y hy => hinj x (List.mem_cons_of_mem _ hx) y (List.mem_cons_of_mem _ hy))
        hl.symm]

section
variable {sha256 : Bytes → Hash}

/-! ## Exports -/

section
variable {A : Type} {verifier : FinalizedExportHeader → Except A Unit}
  {header header' : FinalizedExportHeader} {rows rows' : List ExportRow} {export_ : VerifiedExport}

/-- The messages of the rows, and of the tree above them. -/
def rowsMessages (sha256 : Bytes → Hash) (rows : List ExportRow) : List Bytes :=
  rows.map (fun row => rowMessage row.space row.key row.value) ++
    nodeMessages sha256 "trnm.migration.merkle-node.v0" (rows.map ExportRow.rowDigest)

theorem verifyExport_eq_ok (h : verifyExport sha256 verifier header rows = .ok export_) :
    header.headerDigest = header.canonicalDigest sha256 ∧ header.rowCount.toNat = rows.length ∧
      Rows.checkOrdered (ExportRow.validate sha256) ExportRow.rowKey .rowsNotStrictlyOrdered none
        rows = .ok () ∧ merkleRoot sha256 (rows.map ExportRow.rowDigest) = header.exportRoot ∧
      export_ = ⟨header, sha256 (orderedRowsMessage (rows.map ExportRow.rowDigest))⟩ := by
  simp only [verifyExport, hosted, bind_eq_ok, require_eq_ok, mapError_eq_ok, pure_eq_ok] at h
  obtain ⟨-, ⟨-, -, -, -, -, -, -, -, hcount, -, -, hdigest⟩, -, -, ⟨⟩, hrows, -, hroot, rfl⟩ := h
  exact ⟨hdigest, hcount, hrows, hroot, rfl⟩

theorem validateVerifiedRows_eq_ok : validateVerifiedRows sha256 export_ rows = .ok () ↔
    export_.header.rowCount.toNat = rows.length ∧
      Rows.checkOrdered (ExportRow.validate sha256) ExportRow.rowKey .rowsNotStrictlyOrdered none
        rows = .ok () ∧ merkleRoot sha256 (rows.map ExportRow.rowDigest) =
          export_.header.exportRoot ∧
      sha256 (orderedRowsMessage (rows.map ExportRow.rowDigest)) = export_.orderedRowsDigest := by
  simp only [validateVerifiedRows, bind_eq_ok, require_eq_ok]
  constructor
  · rintro ⟨-, hcount, ⟨⟩, hrows, hroot⟩
    exact ⟨hcount, hrows, hroot⟩
  · rintro ⟨hcount, hrows, hroot⟩
    exact ⟨(), hcount, (), hrows, hroot⟩

/-- Rows of one number under one root are the same rows. -/
theorem rows_eq_of_merkleRoot
    (hsha : Set.InjOn sha256 {m | m ∈ rowsMessages sha256 rows ∨ m ∈ rowsMessages sha256 rows'})
    (hlen : rows.length = rows'.length)
    (hrows : Rows.checkOrdered (ExportRow.validate sha256) ExportRow.rowKey
      .rowsNotStrictlyOrdered none rows = .ok ())
    (hrows' : Rows.checkOrdered (ExportRow.validate sha256) ExportRow.rowKey
      .rowsNotStrictlyOrdered none
      rows' = .ok ()) (h : merkleRoot sha256 (rows.map ExportRow.rowDigest) =
      merkleRoot sha256 (rows'.map ExportRow.rowDigest)) : rows = rows' := by
  have hdigests : rows.map ExportRow.rowDigest = rows'.map ExportRow.rowDigest := by
    refine rootOver_inj (hsha.mono ?_) (by simpa using hlen) h
    rintro m (hm | hm)
    · exact .inl (List.mem_append_right _ hm)
    · exact .inr (List.mem_append_right _ hm)
  obtain ⟨hvalid, -, -⟩ := Rows.checkOrdered_eq_ok.mp hrows
  obtain ⟨hvalid', -, -⟩ := Rows.checkOrdered_eq_ok.mp hrows'
  refine eq_of_map_eq (fun a ha b hb hab => ?_) hdigests
  obtain ⟨⟨⟩, hrow, -⟩ := bind_eq_ok.mp (hvalid a ha)
  obtain ⟨⟨⟩, hrow', -⟩ := bind_eq_ok.mp (hvalid' b hb)
  obtain ⟨hbounded, hdigest⟩ := require_eq_ok.mp hrow
  obtain ⟨hbounded', hdigest'⟩ := require_eq_ok.mp hrow'
  have hmessage := hsha (.inl (List.mem_append_left _ (List.mem_map_of_mem ha)))
    (.inr (List.mem_append_left _ (List.mem_map_of_mem hb)))
      (hdigest.symm.trans (hab.trans hdigest'))
  obtain ⟨hspace, hkey, hvalue⟩ := rowMessage_inj hbounded hbounded' hmessage
  obtain ⟨_, _, _, _⟩ := a
  obtain ⟨_, _, _, _⟩ := b
  simp only at hspace hkey hvalue hab
  rw [hspace, hkey, hvalue, hab]

/-- The count and the root are read back from the message of a header. -/
theorem FinalizedExportHeader.message_inj (h : header.message = header'.message) :
    header.rowCount = header'.rowCount ∧ header.exportRoot = header'.exportRoot := by
  have hparts := StateImport.message_inj (by simp [Hash.size_eq]) (by simp [Hash.size_eq]) h
  simp only [List.cons.injEq, and_true] at hparts
  obtain ⟨-, -, -, -, -, -, hcount, hroot⟩ := hparts
  exact ⟨Bytes.be_inj rfl hcount, Hash.ext_bytes hroot⟩

/-- The messages behind the commitment of a header to its rows. -/
def exportMessages (sha256 : Bytes → Hash) (header : FinalizedExportHeader)
    (rows : List ExportRow) : List Bytes := header.message :: rowsMessages sha256 rows

theorem rows_eq_of_headerDigest {A' : Type} {verifier' : FinalizedExportHeader → Except A' Unit}
    (hsha : Set.InjOn sha256
      {m | m ∈ exportMessages sha256 header rows ∨ m ∈ exportMessages sha256 header' rows'})
    (h : verifyExport sha256 verifier header rows = .ok export_)
    (h' : verifyExport sha256 verifier' header' rows' = .ok export')
    (hdigest : header.headerDigest = header'.headerDigest) : rows = rows' := by
  obtain ⟨hheader, hcount, hrows, hroot, -⟩ := verifyExport_eq_ok h
  obtain ⟨hheader', hcount', hrows', hroot', -⟩ := verifyExport_eq_ok h'
  have hmessage := hsha (.inl List.mem_cons_self) (.inr List.mem_cons_self)
    (hheader.symm.trans (hdigest.trans hheader'))
  obtain ⟨hcounts, hroots⟩ := FinalizedExportHeader.message_inj hmessage
  refine rows_eq_of_merkleRoot (hsha.mono ?_) (by rw [← hcount, ← hcount', hcounts]) hrows hrows'
    (by rw [hroot, hroot', hroots])
  rintro m (hm | hm)
  · exact .inl (List.mem_cons_of_mem _ hm)
  · exact .inr (List.mem_cons_of_mem _ hm)

/-- A verified export accepts its own rows and no others. -/
theorem validateVerifiedRows_iff
    (hsha : Set.InjOn sha256 {m | m ∈ rowsMessages sha256 rows ∨ m ∈ rowsMessages sha256 rows'})
    (h : verifyExport sha256 verifier header rows = .ok export_) :
    validateVerifiedRows sha256 export_ rows' = .ok () ↔ rows' = rows := by
  obtain ⟨-, hcount, hrows, hroot, rfl⟩ := verifyExport_eq_ok h
  rw [validateVerifiedRows_eq_ok]
  constructor
  · rintro ⟨hcount', hrows', hroot', -⟩
    exact (rows_eq_of_merkleRoot hsha (hcount.symm.trans hcount') hrows hrows'
      (hroot.trans hroot'.symm)).symm
  · rintro rfl
    exact ⟨hcount, hrows, hroot, rfl⟩

end

/-! ## Deltas -/

theorem TargetDeltaRow.message_inj {space key space' key' : Bytes} {value value' : Option Bytes}
    (h : Bounded space key (value.getD [])) (h' : Bounded space' key' (value'.getD []))
    (heq : message space key value = message space' key' value') :
    space = space' ∧ key = key' ∧ value = value' := by
  obtain ⟨-, hs, -, hk, hv⟩ := h
  obtain ⟨-, hs', -, hk', hv'⟩ := h'
  simp only [maxNamespaceBytes, maxKeyBytes, maxValueBytes] at hs hk hv hs' hk' hv'
  have hparts := StateImport.message_inj (by simp; omega) (by simp; omega) heq
  simp only [List.cons.injEq, and_true] at hparts
  obtain ⟨hspace, hkey, hkind, hvalue⟩ := hparts
  refine ⟨hspace, hkey, ?_⟩
  cases value <;> cases value' <;> simp_all

section
variable {delta delta' : IncrementalStateDelta}

def deltaMessages (sha256 : Bytes → Hash) (delta : IncrementalStateDelta) : List Bytes :=
  [delta.message sha256, delta.sourceContext.message, delta.targetContext.message] ++
  delta.entries.map (fun entry => TargetDeltaRow.message entry.space entry.key entry.value) ++
  nodeMessages sha256 "trnm.migration.incremental-delta-node.v0"
    (delta.entries.map TargetDeltaRow.operationDigest)

theorem entries_eq_of_deltaRoot
    (hsha : Set.InjOn sha256 {m | m ∈ deltaMessages sha256 delta ∨ m ∈ deltaMessages sha256 delta'})
    (h : delta.Valid sha256) (h' : delta'.Valid sha256)
    (hlen : delta.entries.length = delta'.entries.length)
    (hroot : delta.deltaRoot = delta'.deltaRoot) :
    delta.entries = delta'.entries := by
  have hdigests : delta.entries.map TargetDeltaRow.operationDigest =
      delta'.entries.map TargetDeltaRow.operationDigest := by
    refine rootOver_inj (hsha.mono ?_) (by simpa using hlen)
      (h.root.trans (hroot.trans h'.root.symm))
    rintro m (hm | hm)
    · exact .inl (List.mem_append_right _ hm)
    · exact .inr (List.mem_append_right _ hm)
  refine eq_of_map_eq (fun a ha b hb hab => ?_) hdigests
  obtain ⟨hbounded, -, hdigest⟩ := require_eq_ok.mp (h.entries a ha)
  obtain ⟨hbounded', -, hdigest'⟩ := require_eq_ok.mp (h'.entries b hb)
  have hmessage := hsha
    (.inl (List.mem_append_left _ (List.mem_append_right _ (List.mem_map_of_mem ha))))
    (.inr (List.mem_append_left _ (List.mem_append_right _ (List.mem_map_of_mem hb))))
    (hdigest.symm.trans (hab.trans hdigest'))
  obtain ⟨hspace, hkey, hvalue⟩ := TargetDeltaRow.message_inj hbounded hbounded' hmessage
  obtain ⟨_, _, _, _⟩ := a
  obtain ⟨_, _, _, _⟩ := b
  simp only at hspace hkey hvalue hab
  rw [hspace, hkey, hvalue, hab]

theorem delta_eq_of_deltaDigest
    (hsha : Set.InjOn sha256 {m | m ∈ deltaMessages sha256 delta ∨ m ∈ deltaMessages sha256 delta'})
    (h : delta.validate sha256 = .ok ()) (h' : delta'.validate sha256 = .ok ())
    (hdigest : delta.deltaDigest = delta'.deltaDigest) : delta = delta' := by
  have hvalid := IncrementalStateDelta.valid_of_validate h
  have hvalid' := IncrementalStateDelta.valid_of_validate h'
  have hmessage : delta.message sha256 = delta'.message sha256 :=
    hsha (.inl (by simp [deltaMessages])) (.inr (by simp [deltaMessages]))
      (hvalid.digest.symm.trans (hdigest.trans hvalid'.digest))
  have hparts := message_inj (by simp [Hash.size_eq]) (by simp [Hash.size_eq]) hmessage
  simp only [List.cons.injEq, and_true] at hparts
  obtain ⟨hplan, hschema, hsource, htarget, hbaseRows, hbaseRoot, htargetRows, htargetRoot,
    hbaseCount, htargetCount, hroot, hentries⟩ := hparts
  have hroot := Hash.ext_bytes hroot
  have hlen : delta.entries.length = delta'.entries.length := by
    have := congrArg BitVec.toNat (Bytes.be_inj (w := 64) rfl hentries)
    have hcount := hvalid.bounded
    have hcount' := hvalid'.bounded
    rw [maxIncrementalDeltaRows] at hcount hcount'
    simp only [BitVec.toNat_ofNat] at this
    omega
  have hentries := entries_eq_of_deltaRoot hsha hvalid hvalid' hlen hroot
  have hsource := SourceCheckpointContext.message_inj <| hsha (.inl (by simp [deltaMessages]))
    (.inr (by simp [deltaMessages])) (Hash.ext_bytes hsource)
  have htarget := SourceCheckpointContext.message_inj <| hsha (.inl (by simp [deltaMessages]))
    (.inr (by simp [deltaMessages])) (Hash.ext_bytes htarget)
  obtain ⟨_, _, _, _, _, _, _, _, _, _, _, _, _⟩ := delta
  obtain ⟨_, _, _, _, _, _, _, _, _, _, _, _, _⟩ := delta'
  simp only [IncrementalStateDelta.mk.injEq]
  exact ⟨Hash.ext_bytes hplan, Hash.ext_bytes hschema, hsource, htarget, Hash.ext_bytes hbaseRows,
    Hash.ext_bytes hbaseRoot, Hash.ext_bytes htargetRows, Hash.ext_bytes htargetRoot,
    Bytes.be_inj rfl hbaseCount, Bytes.be_inj rfl htargetCount, hroot, hdigest, hentries⟩

end

end

/-- Exports accepted under one header digest have the same rows, a verified export accepts exactly
the rows that it was issued for, and valid deltas with one digest are equal. -/
theorem commitments_bind_contents (sha256 : Bytes → Hash) {A : Type}
    (verifier : FinalizedExportHeader → Except A Unit) :
    (∀ header header' rows rows' export_ export',
      Set.InjOn sha256 {m | m ∈ exportMessages sha256 header rows ∨
        m ∈ exportMessages sha256 header' rows'} →
      verifyExport sha256 verifier header rows = .ok export_ →
      verifyExport sha256 verifier header' rows' = .ok export' →
      header.headerDigest = header'.headerDigest → rows = rows') ∧
    (∀ header rows rows' export_,
      Set.InjOn sha256 {m | m ∈ rowsMessages sha256 rows ∨ m ∈ rowsMessages sha256 rows'} →
      verifyExport sha256 verifier header rows = .ok export_ →
      (validateVerifiedRows sha256 export_ rows' = .ok () ↔ rows' = rows)) ∧
    ∀ delta delta' : IncrementalStateDelta,
      Set.InjOn sha256 {m | m ∈ deltaMessages sha256 delta ∨ m ∈ deltaMessages sha256 delta'} →
      delta.validate sha256 = .ok () → delta'.validate sha256 = .ok () →
      delta.deltaDigest = delta'.deltaDigest → delta = delta' :=
  ⟨fun _ _ _ _ _ _ => rows_eq_of_headerDigest, fun _ _ _ _ => validateVerifiedRows_iff,
    fun _ _ => delta_eq_of_deltaDigest⟩

/-! ## One export -/

def sampleRows : List ExportRow :=
  [([1], [1], [7]), ([1], [2], []), ([2], [1], [9])].map fun (space, key, value) =>
    ⟨space, key, value, ExportRow.canonicalDigest residue space key value⟩

def headerOver (rows : List ExportRow) : FinalizedExportHeader :=
  let header : FinalizedExportHeader := ⟨.ofByte 1, .ofByte 2, 9, .ofByte 3, .ofByte 4, .ofByte 5,
    .ofNat 64 rows.length, merkleRoot residue (rows.map ExportRow.rowDigest), .zero⟩
  { header with headerDigest := header.canonicalDigest residue }

abbrev sampleHeader : FinalizedExportHeader := headerOver sampleRows

def acceptAll : FinalizedExportHeader → Except Empty Unit := fun _ => .ok ()

theorem verifyExport_sample :
    ∀ rows ∈ [sampleRows, sampleRows.tail], ∃ export_,
      verifyExport residue acceptAll (headerOver rows) rows = .ok export_ := by
  have hsome : ∀ rows ∈ [sampleRows, sampleRows.tail],
      (verifyExport residue acceptAll (headerOver rows) rows).toOption.isSome := by decide +kernel
  intro rows hrows
  obtain ⟨export_, hexport⟩ := Option.isSome_iff_exists.mp (hsome rows hrows)
  exact ⟨export_, toOption_eq_some.mp hexport⟩

/-- Other rows have another header, are not accepted for an export, and other deltas have other
digests. -/
theorem sample_commitments_bind :
    sampleHeader.headerDigest ≠ (headerOver sampleRows.tail).headerDigest ∧
    (∃ export_, verifyExport residue acceptAll sampleHeader sampleRows = .ok export_ ∧
      validateVerifiedRows residue export_ sampleRows.tail ≠ .ok ()) ∧
    sampleDelta.deltaDigest ≠ (deltaBetween (sampleContext 1 1 sampleTarget)
      (sampleContext 2 1 sampleBase) sampleTarget sampleBase).deltaDigest := by
  obtain ⟨export_, hverify⟩ := verifyExport_sample sampleRows (by simp)
  obtain ⟨_, hverify'⟩ := verifyExport_sample sampleRows.tail (by simp)
  obtain ⟨hheaders, hrows, hdeltas⟩ := commitments_bind_contents residue acceptAll
  refine ⟨fun h => ?_, ⟨export_, hverify, fun h => ?_⟩, fun h => ?_⟩
  · have := hheaders _ _ _ _ _ _ (injOn_residue (by decide +kernel)) hverify hverify' h
    exact absurd this (by decide)
  · have := (hrows _ _ sampleRows.tail _ (injOn_residue (by decide +kernel)) hverify).mp h
    exact absurd this (by decide)
  · have hdelta := hdeltas _ _ (injOn_residue (by decide +kernel)) (by decide +kernel)
      (by decide +kernel) h
    exact absurd (congrArg IncrementalStateDelta.baseRowsDigest hdelta) (by decide +kernel)

end Trillionnium.StateImport
