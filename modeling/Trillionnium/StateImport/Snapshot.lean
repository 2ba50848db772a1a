import Trillionnium.StateImport.Refinement

/-!
# Reinstalling a snapshot

A store reached by accepted calls exports a snapshot. The import judges the first and the last
context as if one delta led from one to the other, so that it takes the snapshot exactly when the
last context is at most an epoch after the first.
-/

namespace Trillionnium.StateImport

open Lib Pon

/-- Accepted calls, one after another. -/
inductive Accepts (sha256 : Bytes → Hash) {R : Type} (rootBuilder : RootBuilder R)
    (store : SqliteIncrementalStateStore) (db : DeltaDatabase) :
    List IncrementalStateDelta → DeltaDatabase → Prop where
  | nil : Accepts sha256 rootBuilder store db [] db
  | snoc {deltas : List IncrementalStateDelta} {db' db'' : DeltaDatabase}
      {delta : IncrementalStateDelta} {receipt : DurableDeltaInstallReceipt}
      (h : Accepts sha256 rootBuilder store db deltas db')
      (happly : applyDelta sha256 rootBuilder store db' delta = (.ok receipt, db'')) :
      Accepts sha256 rootBuilder store db (deltas ++ [delta]) db''

/-- The next call, when its result says that it was accepted. -/
theorem Accepts.next {R : Type} {rootBuilder : RootBuilder R}
    (h : Accepts sha256 rootBuilder store db deltas db')
    (hok : (applyDelta sha256 rootBuilder store db' delta).1.toOption.isSome) :
    Accepts sha256 rootBuilder store db (deltas ++ [delta])
      (applyDelta sha256 rootBuilder store db' delta).2 := by
  obtain ⟨receipt, hreceipt⟩ := Option.isSome_iff_exists.mp hok
  exact .snoc h (Prod.ext (toOption_eq_some.mp hreceipt) rfl)

/-- One context is the other, or any number of deltas before it. -/
def SourceCheckpointContext.Precedes (c d : SourceCheckpointContext) : Prop :=
  c = d ∨ c.chainId = d.chainId ∧ c.protocolDigest = d.protocolDigest ∧ c.height < d.height ∧
    c.epoch ≤ d.epoch

theorem SourceCheckpointContext.Precedes.step {c d e : SourceCheckpointContext} (h : c.Precedes d)
    (h' : d.ValidProgression e) : c.Precedes e := by
  obtain ⟨hchain, hprotocol, hheight, hepoch, -⟩ := h'
  rcases h with rfl | ⟨hchain', hprotocol', hheight', hepoch'⟩
  · exact .inr ⟨hchain, hprotocol, hheight, hepoch⟩
  · exact .inr ⟨hchain'.trans hchain, hprotocol'.trans hprotocol, hheight'.trans hheight,
      hepoch'.trans hepoch⟩

/-- Between contexts in order, the rule for one delta is the rule on the epochs. -/
theorem SourceCheckpointContext.Precedes.valid_iff {c d : SourceCheckpointContext}
    (h : c.Precedes d) :
    c = d ∨ c.ValidProgression d ↔ d.epoch ≤ saturatingAdd c.epoch 1 := by
  constructor
  · rintro (rfl | hvalid)
    · have hle := toNat_saturatingAdd (a := c.epoch) (b := 1)
      have hlt := c.epoch.isLt
      rw [BitVec.le_def, hle]
      omega
    · exact hvalid.2.2.2.2
  · intro hepoch
    rcases h with h | ⟨hchain, hprotocol, hheight, hepoch'⟩
    · exact .inl h
    · exact .inr ⟨hchain, hprotocol, hheight, hepoch', hepoch⟩

section
variable {sha256 : Bytes → Hash} {R : Type} {rootBuilder : RootBuilder R}
  {store : SqliteIncrementalStateStore} {context : SourceCheckpointContext} {rows : List TargetRow}
  {db₀ db db' : DeltaDatabase} {deltas : List IncrementalStateDelta} {delta : IncrementalStateDelta}

/-- The metadata describes the rows. -/
structure Sound (sha256 : Bytes → Hash) (rootBuilder : RootBuilder R)
    (store : SqliteIncrementalStateStore) (db : DeltaDatabase) : Prop where
  plan : db.metadata.planDigest = store.planDigest
  schema : db.metadata.targetSchemaDigest = store.targetSchemaDigest
  named : store.planDigest ≠ .zero ∧ store.targetSchemaDigest ≠ .zero
  rows : validateTargetRows (tableRows db.table) = .ok ()
  count : db.metadata.rowCount = (tableRows db.table).length
  digest : db.metadata.rowsDigest = targetRowsDigest sha256 (tableRows db.table)
  root : rootBuilder store.targetSchemaDigest (tableRows db.table) = .ok db.metadata.stateRoot
  nonzero : db.metadata.rowsDigest ≠ .zero ∧ db.metadata.stateRoot ≠ .zero
  generation : db.metadata.generation ≤ i64Max

/-- The store stands at a context of the history. -/
structure Stands (sha256 : Bytes → Hash) (context last : SourceCheckpointContext)
    (db : DeltaDatabase) : Prop where
  source : db.metadata.sourceContextDigest = context.canonicalDigest sha256
  target : db.metadata.targetContextDigest = last.canonicalDigest sha256
  valid : context.validate sha256 = .ok () ∧ last.validate sha256 = .ok ()

theorem Sound.initializeStore {planDigest targetSchemaDigest : Hash}
    (h : initializeStore sha256 rootBuilder planDigest targetSchemaDigest context rows =
      .ok (store, db)) (hzero : sha256 (targetRowsMessage sha256 rows) ≠ .zero) :
    Sound sha256 rootBuilder store db ∧ Stands sha256 context context db ∧
      tableRows db.table = rows ∧ store.targetSchemaDigest = targetSchemaDigest := by
  simp only [StateImport.initializeStore, bind_eq_ok, require_eq_ok, mapError_eq_ok, pure_eq_ok,
    Prod.mk.injEq] at h
  obtain ⟨-, hnamed, ⟨⟩, hcontext, ⟨⟩, hrows, stateRoot, hroot, -, hrootZero, readback, -,
    -, -, rfl, rfl⟩ := h
  obtain ⟨-, -, hsorted⟩ := validateTargetRows_eq_ok.mp hrows
  have htable := tableRows_tableOf hsorted
  refine ⟨⟨rfl, rfl, hnamed, ?_, ?_, ?_, ?_, ⟨hzero, hrootZero⟩, Nat.zero_le _⟩,
    ⟨rfl, rfl, hcontext, hcontext⟩, htable, rfl⟩
  · rw [htable, hrows]
  · rw [htable]
  · rw [htable]
  · rw [htable, hroot]

variable {receipt : DurableDeltaInstallReceipt}

/-- What an accepted call leaves. -/
theorem applyDelta_eq_ok (h : applyDelta sha256 rootBuilder store db delta = (.ok receipt, db')) :
    (∃ targetRows, applyIncrementalDelta sha256 rootBuilder delta delta.sourceContext
      delta.targetContext (tableRows db.table) = .ok targetRows) ∧
    delta.targetSchemaDigest = store.targetSchemaDigest ∧
    (db' = db ∧ db.metadata.stateRoot = delta.targetStateRoot ∧
      db.metadata.targetContextDigest = delta.targetContext.canonicalDigest sha256 ∨
    ∃ prepared, prepared.delta = delta ∧ Ready sha256 rootBuilder db prepared ∧
      install (R := R) sha256 prepared db = .ok db') := by
  unfold applyDelta at h
  split at h
  · cases h
  · next receipt' hprepare =>
    obtain ⟨⟨hschema, happly⟩, hsame, -⟩ := prepare_eq_ok hprepare
    obtain rfl := (Prod.mk.inj h).2
    exact ⟨happly, hschema, .inl ⟨rfl, hsame receipt' rfl⟩⟩
  · next prepared hprepare =>
    obtain ⟨⟨hschema, happly⟩, -, hready⟩ := prepare_eq_ok hprepare
    split at h
    · cases h
    · next db'' hinstall =>
      obtain rfl := (Prod.mk.inj h).2
      exact ⟨happly, hschema, .inr ⟨prepared, (hready prepared rfl).1, (hready prepared rfl).2,
        hinstall⟩⟩

theorem Sound.applyDelta (h : Sound sha256 rootBuilder store db)
    (happly : applyDelta sha256 rootBuilder store db delta = (.ok receipt, db')) :
    Sound sha256 rootBuilder store db' := by
  obtain ⟨-, hschema, ⟨rfl, -⟩ | ⟨prepared, rfl, hready, hinstall⟩⟩ := applyDelta_eq_ok happly
  · exact h
  · have hrows := hready.tableRows_install hinstall
    obtain ⟨-, -, -, -, -, hvalid, hcount, hdigest, hroot⟩ := applyIncrementalDelta_eq_ok.mp
      hready.applied
    obtain ⟨-, hbound, rfl⟩ := install_eq_ok.mp hinstall
    refine ⟨h.plan, h.schema, h.named, ?_, ?_, ?_, ?_, ⟨?_, hready.valid.nonzero.2⟩, hbound⟩
    · rw [hrows, hvalid]
    · rw [hrows]
    · rw [hrows]
    · rw [hrows, ← hschema, hroot]
    · rw [hdigest]
      exact hready.valid.nonzero.1

/-- An accepted call moves the store to the target of its delta. -/
theorem Stands.applyDelta {last : SourceCheckpointContext} (h : Stands sha256 context last db)
    (happly : applyDelta sha256 rootBuilder store db delta = (.ok receipt, db')) :
    Stands sha256 context delta.targetContext db' ∧
      db'.metadata.stateRoot = delta.targetContext.stateRoot ∧
      (last.canonicalDigest sha256 = delta.targetContext.canonicalDigest sha256 ∨
        last.canonicalDigest sha256 = delta.sourceContext.canonicalDigest sha256 ∧
          delta.sourceContext.ValidProgression delta.targetContext) := by
  obtain ⟨⟨targetRows, hrows⟩, -, hcase⟩ := applyDelta_eq_ok happly
  have hvalid := IncrementalStateDelta.valid_of_validate (applyIncrementalDelta_eq_ok.mp hrows).1
  rcases hcase with ⟨rfl, hroot, htarget⟩ | ⟨prepared, rfl, hready, hinstall⟩
  · exact ⟨⟨h.source, htarget, h.valid.1, hvalid.targetContext⟩, hroot.trans hvalid.targetRoot.symm,
      .inl (h.target.symm.trans htarget)⟩
  · obtain ⟨-, -, rfl⟩ := install_eq_ok.mp hinstall
    exact ⟨⟨h.source, rfl, h.valid.1, hvalid.targetContext⟩, hvalid.targetRoot.symm,
      .inr ⟨h.target.symm.trans hready.follows, hvalid.progression⟩⟩

theorem contextsOf_subset : contextsOf context a ⊆ contextsOf context (a ++ b) := by
  intro c hc
  rcases List.mem_cons.mp hc with rfl | hc
  · exact List.mem_cons_self
  · refine List.mem_cons_of_mem _ ?_
    rw [List.flatMap_append]
    exact List.mem_append_left _ hc

/-- A store reached by accepted calls is sound and stands at the target of the last one, which the
first context precedes. -/
theorem Accepts.reached (h : Accepts sha256 rootBuilder store db₀ deltas db)
    (hsound : Sound sha256 rootBuilder store db₀) (hstands : Stands sha256 context context db₀)
    (hsha : Set.InjOn sha256 {m | m ∈
      (contextsOf context deltas).map SourceCheckpointContext.message}) :
    Sound sha256 rootBuilder store db ∧ Stands sha256 context (lastContext context deltas) db ∧
      context.Precedes (lastContext context deltas) ∧ (deltas = [] ∧ db = db₀ ∨
        deltas ≠ [] ∧ db.metadata.stateRoot = (lastContext context deltas).stateRoot) := by
  induction h with
  | nil => exact ⟨hsound, hstands, .inl rfl, .inl ⟨rfl, rfl⟩⟩
  | @snoc deltas db' db'' delta receipt h happly ih =>
    have hsub : contextsOf context deltas ⊆ contextsOf context (deltas ++ [delta]) :=
      contextsOf_subset
    obtain ⟨hsound', hstands', hprecedes, -⟩ := ih (hsha.mono fun m hm => List.map_subset _ hsub hm)
    obtain ⟨hnext, hroot, hcase⟩ := hstands'.applyDelta happly
    have hlast : lastContext context deltas ∈ contextsOf context (deltas ++ [delta]) :=
      lastContext_mem
    have hnew : delta.sourceContext ∈ contextsOf context (deltas ++ [delta]) ∧
        delta.targetContext ∈ contextsOf context (deltas ++ [delta]) := by
      simp [contextsOf]
    rw [lastContext_snoc]
    refine ⟨hsound'.applyDelta happly, hnext, ?_, .inr ⟨by simp, hroot⟩⟩
    rcases hcase with hsame | ⟨hsource, hprogression⟩
    · rw [← SourceCheckpointContext.message_inj (hsha (List.mem_map_of_mem hlast)
        (List.mem_map_of_mem hnew.2) hsame)]
      exact hprecedes
    · rw [SourceCheckpointContext.message_inj (hsha (List.mem_map_of_mem hlast)
        (List.mem_map_of_mem hnew.1) hsource)] at hprecedes
      exact hprecedes.step hprogression

/-! ## Export and import -/

theorem tableOf_tableRows : tableOf (tableRows table) = table := by
  refine OrdMap.ext_get fun k => ?_
  rw [← valueAt_tableRows, tableRows_tableOf sorted_tableRows, valueAt_tableRows]

theorem Stands.nonzero (h : Stands sha256 context last db) :
    db.metadata.sourceContextDigest ≠ .zero ∧ db.metadata.targetContextDigest ≠ .zero := by
  have hdigest : ∀ {c : SourceCheckpointContext}, c.validate sha256 = .ok () →
      c.canonicalDigest sha256 ≠ .zero := by
    intro c hc
    obtain ⟨-, -, -, -, -, -, -, -, hdigest⟩ := require_eq_ok.mp hc
    exact hdigest
  rw [h.source, h.target]
  exact ⟨hdigest h.valid.1, hdigest h.valid.2⟩

section
variable {last : SourceCheckpointContext} (hsound : Sound sha256 rootBuilder store db)
  (hstands : Stands sha256 context last db)
include hsound hstands

theorem readSnapshotWithRootBuilder_eq :
    readSnapshotWithRootBuilder sha256 rootBuilder store db =
      .ok (db.metadata, tableRows db.table) := by
  have hread := (readSnapshot_eq_ok (R := R)).mpr ⟨⟨hsound.plan, hsound.schema, hstands.nonzero⟩,
    hsound.rows, hsound.count, hsound.digest, rfl, rfl⟩
  simp only [readSnapshotWithRootBuilder, bind_eq_ok, require_eq_ok, mapError_eq_ok, pure_eq_ok]
  exact ⟨_, hread, _, hsound.root, (), rfl, rfl⟩

def snapshotOf (sha256 : Bytes → Hash) (db : DeltaDatabase) : DurableDeltaSnapshot :=
  ⟨db.metadata, tableRows db.table, sha256 db.metadata.snapshotMessage⟩

theorem validate_snapshotOf : (snapshotOf sha256 db).validate sha256 rootBuilder = .ok () := by
  obtain ⟨hbound, -, -⟩ := validateTargetRows_eq_ok.mp hsound.rows
  simp only [DurableDeltaSnapshot.validate, bind_eq_ok, require_eq_ok, mapError_eq_ok]
  refine ⟨(), ⟨?_, ?_, hstands.nonzero.1, hstands.nonzero.2, hsound.nonzero.1,
    hsound.nonzero.2, rfl, ?_, hsound.generation⟩, (), hsound.rows, (), ⟨hsound.count,
    hsound.digest.symm⟩, _, ?_, rfl⟩
  · exact hsound.plan ▸ hsound.named.1
  · exact hsound.schema ▸ hsound.named.2
  · exact hsound.count ▸ hbound
  · exact hsound.schema ▸ hsound.root

theorem exportSnapshot_eq :
    exportSnapshot sha256 rootBuilder store db = .ok (snapshotOf sha256 db) := by
  have hvalid := validate_snapshotOf hsound hstands
  simp only [exportSnapshot, readSnapshotWithRootBuilder_eq hsound hstands, bind_eq_ok, pure_eq_ok]
  exact ⟨_, rfl, (), hvalid, rfl⟩

theorem initializeFromSnapshot_eq :
    initializeFromSnapshot sha256 rootBuilder (snapshotOf sha256 db) = .ok (store, db) := by
  have hvalid := validate_snapshotOf hsound hstands
  have hstore : (⟨db.metadata.planDigest, db.metadata.targetSchemaDigest⟩ :
      SqliteIncrementalStateStore) = store := by rw [hsound.plan, hsound.schema]
  have hdb : (⟨db.metadata, tableOf (tableRows db.table)⟩ : DeltaDatabase) = db := by
    rw [tableOf_tableRows]
  have hread : readbackWithRootBuilder sha256 rootBuilder store db = .ok db.metadata := by
    rw [readbackWithRootBuilder, readSnapshotWithRootBuilder_eq hsound hstands]
    rfl
  simp only [initializeFromSnapshot, hvalid, bind_eq_ok, require_eq_ok, pure_eq_ok]
  refine ⟨(), trivial, db.metadata, ?_, (), rfl, ?_⟩
  · rw [snapshotOf, hstore, hdb, hread]
  · rw [snapshotOf, hstore, hdb]

/-- The import accepts the snapshot exactly under its rule for the two contexts, and then has the
same store. -/
theorem initializeFromSnapshotBound_eq_ok {x : SqliteIncrementalStateStore × DeltaDatabase} :
    initializeFromSnapshotBound sha256 rootBuilder (snapshotOf sha256 db) context last = .ok x ↔
      (last.stateRoot = db.metadata.stateRoot ∧ (context = last ∨ context.ValidProgression last)) ∧
      x = (store, db) := by
  simp only [initializeFromSnapshotBound, validate_snapshotOf hsound hstands,
    initializeFromSnapshot_eq hsound hstands, hstands.valid, bind_eq_ok, require_eq_ok,
    mapError_eq_ok, Except.ok.injEq]
  constructor
  · rintro ⟨-, -, -, -, -, -, -, ⟨-, -, h⟩, rfl⟩
    exact ⟨h, rfl⟩
  · rintro ⟨h, rfl⟩
    exact ⟨(), trivial, (), trivial, (), trivial, (), ⟨hstands.source, hstands.target, h⟩, rfl⟩

end

/-- The snapshot of the store can be installed at a fresh path, and the new store reports and holds
the same and answers every next delta alike. -/
def Reinstalls (sha256 : Bytes → Hash) (rootBuilder : RootBuilder R)
    (store : SqliteIncrementalStateStore) (db : DeltaDatabase)
    (source target : VerifiedSourceCheckpointContext) : Prop :=
  ∃ snapshot store' db', exportSnapshot sha256 rootBuilder store db = .ok snapshot ∧
    initializeFromVerifiedSnapshot sha256 rootBuilder snapshot source target = .ok (store', db') ∧
    readback (R := R) sha256 store' db' = readback sha256 store db ∧
    tableRows db'.table = tableRows db.table ∧
    ∀ delta, (applyDelta sha256 rootBuilder store' db' delta).1 =
      (applyDelta sha256 rootBuilder store db delta).1

end

theorem context_of_verify {A : Type} {verifier : SourceCheckpointContext → Except A Unit}
    (h : verifySourceCheckpointContext sha256 verifier context = .ok verified) :
    verified.context = context := by
  simp only [verifySourceCheckpointContext, bind_eq_ok, pure_eq_ok] at h
  obtain ⟨-, -, -, -, rfl⟩ := h
  rfl

/-- The snapshot of a store reached by accepted calls reinstalls exactly when the last context is at
most one epoch after the first, and, before any delta, the first context names the root of the
rows. -/
theorem snapshot_reinstalls_iff (sha256 : Bytes → Hash) {R A : Type} (rootBuilder : RootBuilder R)
    (verifier : SourceCheckpointContext → Except A Unit) {planDigest targetSchemaDigest : Hash}
    {context : SourceCheckpointContext} {rows : List TargetRow}
    {store : SqliteIncrementalStateStore} {db₀ db : DeltaDatabase}
    {deltas : List IncrementalStateDelta} {source target : VerifiedSourceCheckpointContext}
    (hinit : initializeStore sha256 rootBuilder planDigest targetSchemaDigest context rows =
      .ok (store, db₀))
    (haccepts : Accepts sha256 rootBuilder store db₀ deltas db)
    (hsource : verifySourceCheckpointContext sha256 verifier context = .ok source)
    (htarget : verifySourceCheckpointContext sha256 verifier (lastContext context deltas) =
      .ok target)
    (hzero : sha256 (targetRowsMessage sha256 rows) ≠ .zero)
    (hsha : Set.InjOn sha256 {m | m ∈
      (contextsOf context deltas).map SourceCheckpointContext.message}) :
    Reinstalls sha256 rootBuilder store db source target ↔
      (lastContext context deltas).epoch ≤ saturatingAdd context.epoch 1 ∧
      (deltas = [] → rootBuilder targetSchemaDigest rows = .ok context.stateRoot) := by
  obtain ⟨hsound₀, hstands₀, hrows, rfl⟩ := Sound.initializeStore hinit hzero
  obtain ⟨hsound, hstands, hprecedes, hroot⟩ := haccepts.reached hsound₀ hstands₀ hsha
  have hbound := fun x => initializeFromSnapshotBound_eq_ok (x := x) hsound hstands
  -- the root named by the last context is the stored one after any delta, and else the given one
  have hnamed : (lastContext context deltas).stateRoot = db.metadata.stateRoot ↔
      (deltas = [] → rootBuilder store.targetSchemaDigest rows = .ok context.stateRoot) := by
    rcases hroot with ⟨rfl, rfl⟩ | ⟨hne, hlast⟩
    · have hstored := hsound.root
      rw [hrows] at hstored
      simp only [lastContext, List.getLast?_nil, Option.map_none, Option.getD_none,
        forall_const, hstored, Except.ok.injEq]
      exact eq_comm
    · exact ⟨fun _ h => absurd h hne, fun _ => hlast.symm⟩
  rw [← hprecedes.valid_iff, ← hnamed]
  constructor
  · rintro ⟨snapshot, store', db', hexport, hinstall, -⟩
    rw [exportSnapshot_eq hsound hstands] at hexport
    obtain rfl := Except.ok.inj hexport
    rw [initializeFromVerifiedSnapshot, context_of_verify hsource,
      context_of_verify htarget] at hinstall
    obtain ⟨⟨hstate, hvalid⟩, -⟩ := (hbound _).mp hinstall
    exact ⟨hvalid, hstate⟩
  · rintro ⟨hvalid, hstate⟩
    refine ⟨snapshotOf sha256 db, store, db, exportSnapshot_eq hsound hstands, ?_, rfl, rfl,
      fun _ => rfl⟩
    rw [initializeFromVerifiedSnapshot, context_of_verify hsource, context_of_verify htarget]
    exact (hbound _).mpr ⟨⟨hstate, hvalid⟩, rfl⟩

/-! ## Two histories -/

def sampleStore : SqliteIncrementalStateStore := ⟨.ofByte 7, .ofByte 8⟩

def permit (_ : SourceCheckpointContext) : Except Empty Unit := .ok ()

def verifiedSample (context : SourceCheckpointContext) : VerifiedSourceCheckpointContext :=
  ⟨context, residue (message "trnm.migration.verified-source-checkpoint-context.v0"
    [(context.canonicalDigest residue).bytes])⟩

/-- After one delta within the epoch the snapshot reinstalls. -/
theorem sample_snapshot_reinstalls :
    Reinstalls residue residueRoot sampleStore
      (applyDelta residue residueRoot sampleStore sampleDatabase sampleDelta).2
      (verifiedSample (sampleContext 1 1 sampleBase))
        (verifiedSample (sampleContext 2 1 sampleTarget)) := by
  have hinit : initializeStore residue residueRoot (.ofByte 7) (.ofByte 8)
      (sampleContext 1 1 sampleBase) sampleBase = .ok (sampleStore, sampleDatabase) := by
    decide +kernel
  have hok : (applyDelta residue residueRoot sampleStore sampleDatabase
      sampleDelta).1.toOption.isSome := by
    decide +kernel
  have haccepts : Accepts residue residueRoot sampleStore sampleDatabase [sampleDelta] _ :=
    Accepts.nil.next hok
  have hsource : verifySourceCheckpointContext residue permit (sampleContext 1 1 sampleBase) =
      .ok (verifiedSample (sampleContext 1 1 sampleBase)) := by decide +kernel
  have htarget : verifySourceCheckpointContext residue permit
      (lastContext (sampleContext 1 1 sampleBase) [sampleDelta]) =
      .ok (verifiedSample (sampleContext 2 1 sampleTarget)) := by decide +kernel
  have hapart : ∀ x ∈ (contextsOf (sampleContext 1 1 sampleBase) [sampleDelta]).map
      SourceCheckpointContext.message, ∀ y ∈ (contextsOf (sampleContext 1 1 sampleBase)
      [sampleDelta]).map SourceCheckpointContext.message, residue x = residue y → x = y := by
    decide +kernel
  have hzero : residue (targetRowsMessage residue sampleBase) ≠ .zero := by decide +kernel
  exact (snapshot_reinstalls_iff residue residueRoot permit hinit haccepts hsource htarget hzero
    fun x hx y hy => hapart x hx y hy).mpr ⟨by decide, by simp⟩

def enterSecondEpoch : IncrementalStateDelta :=
  deltaBetween (sampleContext 1 1 sampleBase) (sampleContext 2 2 sampleTarget) sampleBase
    sampleTarget

def enterThirdEpoch : IncrementalStateDelta :=
  deltaBetween (sampleContext 2 2 sampleTarget) (sampleContext 3 3 sampleBase) sampleTarget
    sampleBase

/-- What the store exports after both. -/
def thirdEpochSnapshot : DurableDeltaSnapshot :=
  let metadata : DurableDeltaReadback :=
    ⟨.ofByte 7, .ofByte 8, (sampleContext 1 1 sampleBase).canonicalDigest residue,
      (sampleContext 3 3 sampleBase).canonicalDigest residue, targetRowsDigest residue sampleBase,
      targetRowsDigest residue sampleBase, 2, 2, enterThirdEpoch.deltaDigest⟩
  ⟨metadata, sampleBase, residue metadata.snapshotMessage⟩

/-- After two deltas that each enter the next epoch, the import refuses the exported snapshot. -/
theorem two_epoch_snapshot_refused :
    initializeStore residue residueRoot (.ofByte 7) (.ofByte 8) (sampleContext 1 1 sampleBase)
      sampleBase = .ok (sampleStore, sampleDatabase) ∧
    ∃ db snapshot, Accepts residue residueRoot sampleStore sampleDatabase
        [enterSecondEpoch, enterThirdEpoch] db ∧
      lastContext (sampleContext 1 1 sampleBase) [enterSecondEpoch, enterThirdEpoch] =
        sampleContext 3 3 sampleBase ∧
      verifySourceCheckpointContext residue permit (sampleContext 1 1 sampleBase) =
        .ok (verifiedSample (sampleContext 1 1 sampleBase)) ∧
      verifySourceCheckpointContext residue permit (sampleContext 3 3 sampleBase) =
        .ok (verifiedSample (sampleContext 3 3 sampleBase)) ∧
      exportSnapshot residue residueRoot sampleStore db = .ok snapshot ∧
      initializeFromVerifiedSnapshot residue residueRoot snapshot
        (verifiedSample (sampleContext 1 1 sampleBase))
          (verifiedSample (sampleContext 3 3 sampleBase)) =
        .error (.protocol .sourceCheckpointContextMismatch) := by
  have hinit : initializeStore residue residueRoot (.ofByte 7) (.ofByte 8)
      (sampleContext 1 1 sampleBase) sampleBase = .ok (sampleStore, sampleDatabase) := by
    decide +kernel
  have hfirst : (applyDelta residue residueRoot sampleStore sampleDatabase
      enterSecondEpoch).1.toOption.isSome := by decide +kernel
  have hsecond : (applyDelta residue residueRoot sampleStore
      (applyDelta residue residueRoot sampleStore sampleDatabase enterSecondEpoch).2
      enterThirdEpoch).1.toOption.isSome := by decide +kernel
  have hexport : (exportSnapshot residue residueRoot sampleStore (applyDelta residue residueRoot
      sampleStore (applyDelta residue residueRoot sampleStore sampleDatabase enterSecondEpoch).2
      enterThirdEpoch).2) = .ok thirdEpochSnapshot := by decide +kernel
  exact ⟨hinit, _, _, (Accepts.nil.next hfirst).next hsecond, by decide +kernel, by decide +kernel,
    by decide +kernel, hexport, by decide +kernel⟩

end Trillionnium.StateImport
