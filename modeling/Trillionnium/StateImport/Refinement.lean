import Trillionnium.Lib.Trace
import Trillionnium.StateImport.Store

/-!
# The store refines the fold of its deltas

Calls of `apply_delta_v0` whose parts interleave in any way, or stop half-way (`run`). The invariant
`Refines` ties the store to the deltas committed so far: a prepared change is ready to be written as
long as the generation it was read at is still the current one.
-/

namespace Trillionnium.StateImport

open Lib Pon

/-! ## The table -/

section
variable {k : RowKey} {table : OrdMap RowKey Bytes} {entries : List TargetDeltaRow}
  {rows : List TargetRow}

theorem sorted_tableRows : Rows.Sorted TargetRow.rowKey (tableRows table) :=
  List.pairwise_map.mpr table.sorted

theorem valueAt_tableRows : valueAt k (tableRows table) = table.get k := by
  rw [valueAt, tableRows, OrdMap.get]
  induction table.entries with
  | nil => rfl
  | cons e l ih =>
    obtain ⟨j, v⟩ := e
    rw [List.map_cons, Rows.find_cons, Assoc.find]
    by_cases h : j = k
    · subst h
      rw [if_pos rfl, if_pos (by rfl)]
      rfl
    · rw [if_neg h, if_neg (by exact h), ih]

/-- Rows in strict order are what the table holds at each key. -/
theorem tableRows_eq (hrows : Rows.Sorted TargetRow.rowKey rows)
    (h : ∀ k, table.get k = valueAt k rows) :
    tableRows table = rows :=
  sorted_tableRows.ext hrows fun k => find_eq_iff_valueAt.mpr (valueAt_tableRows.trans (h k))

theorem tableRows_tableOf (hrows : Rows.Sorted TargetRow.rowKey rows) :
    tableRows (tableOf rows) = rows := by
  refine tableRows_eq hrows fun k => ?_
  have hsorted : Assoc.Sorted (rows.map fun row => (row.rowKey, row.value)) :=
    List.pairwise_map.mpr hrows
  rw [tableOf, OrdMap.ofList, OrdMap.get_foldl_insert hsorted, OrdMap.get_empty,
    Option.or_none, valueAt]
  clear hrows hsorted
  induction rows with
  | nil => rfl
  | cons row rows ih =>
    rw [List.map_cons, Assoc.find, Rows.find_cons, ih]
    split <;> rfl

theorem get_mutate :
    (mutate table entry).get k = if entry.rowKey = k then entry.value else table.get k := by
  unfold mutate
  by_cases hk : entry.rowKey = k
  · split <;> simp [*]
  · split <;> simp [hk, OrdMap.get_insert, OrdMap.get_erase]

/-- The statements of the transaction, entry by entry, write what the merge computes. -/
theorem tableRows_foldl_mutate (hentries : Rows.Sorted TargetDeltaRow.rowKey entries) :
    tableRows (entries.foldl mutate table) = applyEntries entries (tableRows table) := by
  refine tableRows_eq (sorted_applyEntries hentries sorted_tableRows) fun k => ?_
  rw [valueAt_applyEntries hentries sorted_tableRows, valueAt_tableRows, entryAt]
  induction entries generalizing table with
  | nil => rfl
  | cons entry entries ih =>
    obtain ⟨hlt, hrest⟩ := List.pairwise_cons.mp hentries
    rw [List.foldl_cons, ih hrest, get_mutate, Rows.find_cons]
    split
    · next hk =>
      -- no later entry is at this key
      rw [hentries.find_of_le hk.ge]
      rfl
    · rfl

end

/-! ## The parts of a call -/

section
variable {sha256 : Bytes → Hash} {R : Type} {rootBuilder : RootBuilder R}
  {store : SqliteIncrementalStateStore} {db db' : DeltaDatabase} {delta : IncrementalStateDelta}
  {prepared : Prepared}

theorem readSnapshot_eq_ok {readback : DurableDeltaReadback} :
    readSnapshot (R := R) sha256 store db = .ok (readback, rows) ↔
      (db.metadata.planDigest = store.planDigest ∧
        db.metadata.targetSchemaDigest = store.targetSchemaDigest ∧
        db.metadata.sourceContextDigest ≠ .zero ∧ db.metadata.targetContextDigest ≠ .zero) ∧
      validateTargetRows rows = .ok () ∧ db.metadata.rowCount = rows.length ∧
      db.metadata.rowsDigest = targetRowsDigest sha256 rows ∧ readback = db.metadata ∧
      rows = tableRows db.table := by
  simp only [readSnapshot, bind_eq_ok, require_eq_ok, mapError_eq_ok, pure_eq_ok, Prod.mk.injEq]
  constructor
  · rintro ⟨-, hstore, ⟨⟩, hrows, -, ⟨hcount, hdigest⟩, rfl, rfl⟩
    refine ⟨hstore, hrows, hcount, hdigest.symm, ?_, rfl⟩
    rw [hdigest]
  · rintro ⟨hstore, hrows, hcount, hdigest, rfl, rfl⟩
    refine ⟨(), hstore, (), hrows, (), ⟨hcount, hdigest.symm⟩, ?_, rfl⟩
    rw [← hdigest]

/-- The change was prepared on these contents of the store. -/
structure Ready (sha256 : Bytes → Hash) (rootBuilder : RootBuilder R) (db : DeltaDatabase)
    (prepared : Prepared) : Prop where
  before : prepared.before = db.metadata
  fresh : db.metadata.lastDeltaDigest ≠ prepared.delta.deltaDigest
  follows : db.metadata.targetContextDigest = prepared.delta.sourceContext.canonicalDigest sha256
  applied : applyIncrementalDelta sha256 rootBuilder prepared.delta prepared.delta.sourceContext
    prepared.delta.targetContext (tableRows db.table) = .ok prepared.targetRows

/-- A call that reads the delta installed last ends there, and any other has its change ready. -/
theorem prepare_eq_ok (h : prepare sha256 rootBuilder store db delta = .ok result) :
    (delta.targetSchemaDigest = store.targetSchemaDigest ∧ ∃ targetRows,
      applyIncrementalDelta sha256 rootBuilder delta delta.sourceContext delta.targetContext
        (tableRows db.table) = .ok targetRows) ∧
    (∀ receipt, result = .inl receipt → db.metadata.stateRoot = delta.targetStateRoot ∧
      db.metadata.targetContextDigest = delta.targetContext.canonicalDigest sha256) ∧
    ∀ prepared, result = .inr prepared → prepared.delta = delta ∧
      Ready sha256 rootBuilder db prepared := by
  simp only [prepare, bind_eq_ok, require_eq_ok, mapError_eq_ok] at h
  obtain ⟨-, ⟨-, hschema⟩, ⟨before, rows⟩, hread, -, -, -, hcontext, targetRows, happly, h⟩ := h
  obtain ⟨-, -, -, -, rfl, rfl⟩ := readSnapshot_eq_ok.mp hread
  refine ⟨⟨hschema, targetRows, happly⟩, ?_⟩
  split at h
  · obtain ⟨⟨⟩, hsame, h⟩ := bind_eq_ok.mp h
    obtain ⟨-, hroot, -, hcontext⟩ := require_eq_ok.mp hsame
    obtain rfl := pure_eq_ok.mp h
    exact ⟨fun _ _ => ⟨hroot, hcontext⟩, fun _ heq => by cases heq⟩
  · next hlast =>
    obtain rfl := pure_eq_ok.mp h
    refine ⟨fun receipt heq => ?_, fun prepared heq => ?_⟩
    · cases heq
    · obtain rfl := Sum.inr.inj heq
      exact ⟨rfl, rfl, hlast, hcontext.resolve_left hlast, happly⟩

theorem ready_of_prepare (h : prepare sha256 rootBuilder store db delta = .ok (.inr prepared)) :
    prepared.delta = delta ∧ Ready sha256 rootBuilder db prepared :=
      (prepare_eq_ok h).2.2 prepared rfl

theorem Ready.valid (h : Ready sha256 rootBuilder db prepared) : prepared.delta.Valid sha256 :=
  IncrementalStateDelta.valid_of_validate (applyIncrementalDelta_eq_ok.mp h.applied).1

theorem install_eq_ok : install (R := R) sha256 prepared db = .ok db' ↔
    (db.metadata.generation = prepared.before.generation ∧
      db.metadata.rowsDigest = prepared.before.rowsDigest ∧
      db.metadata.stateRoot = prepared.before.stateRoot ∧
      db.metadata.targetContextDigest = prepared.before.targetContextDigest) ∧
    db.metadata.generation + 1 ≤ i64Max ∧
    db' = ⟨{ db.metadata with
      targetContextDigest := prepared.delta.targetContext.canonicalDigest sha256
      rowsDigest := targetRowsDigest sha256 prepared.targetRows
      stateRoot := prepared.delta.targetStateRoot
      rowCount := prepared.targetRows.length
      generation := db.metadata.generation + 1
      lastDeltaDigest := prepared.delta.deltaDigest },
      prepared.delta.entries.foldl mutate db.table⟩ := by
  simp only [install, bind_eq_ok, require_eq_ok, pure_eq_ok]
  constructor
  · rintro ⟨-, hsame, -, hbound, rfl⟩
    exact ⟨hsame, hbound, rfl⟩
  · rintro ⟨hsame, hbound, rfl⟩
    exact ⟨(), hsame, (), hbound, rfl⟩

/-- A change that is ready leaves the rows that its call computed. -/
theorem Ready.tableRows_install (h : Ready sha256 rootBuilder db prepared)
    (hinstall : install (R := R) sha256 prepared db = .ok db') :
    tableRows db'.table = prepared.targetRows := by
  obtain ⟨-, -, rfl⟩ := install_eq_ok.mp hinstall
  obtain ⟨-, -, -, -, hout, -⟩ := applyIncrementalDelta_eq_ok.mp h.applied
  rw [tableRows_foldl_mutate h.valid.sorted, hout]

end

/-! ## Interleaved calls -/

/-- Where a call is. -/
inductive Phase (R : Type) where
  | prepared (prepared : Prepared)
  | installed (prepared : Prepared)
  | returned (result : Except (DurableDeltaStoreError R) DurableDeltaInstallReceipt)

/-- The store with the calls on it, and the changes committed so far. -/
structure System (R : Type) where
  db : DeltaDatabase
  calls : OrdMap Nat (Phase R)
  committed : List Prepared

def System.deltas {R : Type} (s : System R) : List IncrementalStateDelta :=
  s.committed.map Prepared.delta

inductive Event where
  | begin (call : Nat) (delta : IncrementalStateDelta)
  | commit (call : Nat)
  | finish (call : Nat)
  | stop (call : Nat)

section
variable (sha256 : Bytes → Hash) {R : Type} (rootBuilder : RootBuilder R)
  (store : SqliteIncrementalStateStore)

/-- One part of one call, or the death of a call between its parts. -/
def System.step (s : System R) : Event → System R
  | .begin call delta =>
    match s.calls.get call with
    | some _ => s
    | none =>
      match prepare sha256 rootBuilder store s.db delta with
      | .error e => { s with calls := s.calls.insert call (.returned (.error e)) }
      | .ok (.inl receipt) => { s with calls := s.calls.insert call (.returned (.ok receipt)) }
      | .ok (.inr p) => { s with calls := s.calls.insert call (.prepared p) }
  | .commit call =>
    match s.calls.get call with
    | some (.prepared p) =>
      match install sha256 p s.db with
      | .error e => { s with calls := s.calls.insert call (.returned (.error e)) }
      | .ok db => ⟨db, s.calls.insert call (.installed p), s.committed ++ [p]⟩
    | _ => s
  | .finish call =>
    match s.calls.get call with
    | some (.installed p) =>
      { s with calls := s.calls.insert call (.returned (confirm sha256 rootBuilder store s.db p)) }
    | _ => s
  | .stop call => { s with calls := s.calls.erase call }

def System.run (s : System R) (events : List Event) : System R :=
  events.foldl (System.step sha256 rootBuilder store) s

/-- The store as `initialize` leaves it. -/
def System.start (db : DeltaDatabase) : System R := ⟨db, ∅, []⟩

/-- The pure meaning of a delta. -/
def applyTo (rows : List TargetRow) (delta : IncrementalStateDelta) :
    Except (IncrementalDeltaError R) (List TargetRow) :=
  applyIncrementalDelta sha256 rootBuilder delta delta.sourceContext delta.targetContext rows

end

/-- The context that deltas lead to. -/
def lastContext (context : SourceCheckpointContext) (deltas : List IncrementalStateDelta) :
    SourceCheckpointContext :=
  (deltas.getLast?.map IncrementalStateDelta.targetContext).getD context

variable {deltas : List IncrementalStateDelta} {delta : IncrementalStateDelta}

theorem lastContext_snoc : lastContext context (deltas ++ [delta]) = delta.targetContext := by
  simp [lastContext]

section
variable {sha256 : Bytes → Hash} {R : Type} {rootBuilder : RootBuilder R}
  {store : SqliteIncrementalStateStore} {context : SourceCheckpointContext} {rows : List TargetRow}
  {s : System R}

/-- The store is the fold of the committed deltas over the first rows, and a prepared change is
ready while its generation is the current one. -/
structure Refines (sha256 : Bytes → Hash) (rootBuilder : RootBuilder R)
    (context : SourceCheckpointContext) (rows : List TargetRow) (s : System R) : Prop where
  fold : s.deltas.foldlM (applyTo sha256 rootBuilder) rows = .ok (tableRows s.db.table)
  generation : s.db.metadata.generation = s.committed.length
  reads : s.committed.map (·.before.generation) = List.range s.committed.length
  reached : s.db.metadata.targetContextDigest =
    (lastContext context s.deltas).canonicalDigest sha256
  last : ∀ delta ∈ s.deltas.getLast?, s.db.metadata.lastDeltaDigest = delta.deltaDigest
  linked : ∀ a delta b, s.deltas = a ++ delta :: b →
    delta.Valid sha256 ∧
    (lastContext context a).canonicalDigest sha256 = delta.sourceContext.canonicalDigest sha256
  pending : ∀ call p, s.calls.get call = some (.prepared p) →
    p.before.generation ≤ s.db.metadata.generation ∧
    (p.before.generation = s.db.metadata.generation → Ready sha256 rootBuilder s.db p)

namespace Refines

variable (h : Refines sha256 rootBuilder context rows s)
include h

/-- A phase that holds no prepared change leaves the rest as it is. -/
theorem record
    (hphase : ∀ p, phase = .prepared p → p.before.generation = s.db.metadata.generation ∧
      Ready sha256 rootBuilder s.db p) :
    Refines sha256 rootBuilder context rows { s with calls := s.calls.insert call phase } where
  __ := h
  pending call' p hp := by
    rcases OrdMap.get_insert_cases hp with ⟨-, hp⟩ | ⟨-, hp⟩
    · obtain ⟨hgen, hready⟩ := hphase p hp.symm
      exact ⟨hgen.le, fun _ => hready⟩
    · exact h.pending call' p hp

theorem commit {call : Nat} {p : Prepared} {db : DeltaDatabase}
    (hp : s.calls.get call = some (.prepared p))
    (hinstall : install (R := R) sha256 p s.db = .ok db) :
    Refines sha256 rootBuilder context rows
      ⟨db, s.calls.insert call (.installed p), s.committed ++ [p]⟩ := by
  have hdeltas : System.deltas (R := R) ⟨db, s.calls.insert call (.installed p),
      s.committed ++ [p]⟩ = s.deltas ++ [p.delta] := by simp [System.deltas]
  have hgen := (install_eq_ok.mp hinstall).1.1
  have hready := (h.pending call p hp).2 hgen.symm
  have hrows := hready.tableRows_install hinstall
  obtain ⟨-, -, rfl⟩ := install_eq_ok.mp hinstall
  refine ⟨?_, ?_, ?_, ?_, ?_, ?_, ?_⟩
  · rw [hdeltas, List.foldlM_append, h.fold, hrows]
    simp only [List.foldlM_cons, List.foldlM_nil, bind_pure]
    exact hready.applied
  · simp [h.generation]
  · rw [List.map_append, h.reads, List.length_append, List.length_singleton, List.range_succ,
      List.map_singleton, ← hgen, h.generation]
  · rw [hdeltas, lastContext_snoc]
  · rw [hdeltas, List.getLast?_concat]
    rintro delta ⟨⟩
    rfl
  · rw [hdeltas]
    refine forall_split_snoc h.linked ⟨hready.valid, ?_⟩
    rw [← h.reached, hready.follows]
  · -- every other prepared change was read at a generation that is now over
    intro call' p' hp'
    rcases OrdMap.get_insert_cases hp' with ⟨-, hp'⟩ | ⟨-, hp'⟩
    · cases hp'
    · have hle := (h.pending call' p' hp').1
      exact ⟨Nat.le_succ_of_le hle, fun heq => absurd (heq ▸ hle) (Nat.not_succ_le_self _)⟩

theorem step (event : Event) :
    Refines sha256 rootBuilder context rows (s.step sha256 rootBuilder store event) := by
  cases event with
  | «begin» call delta =>
    simp only [System.step]
    split
    · exact h
    · split
      · exact h.record (by simp)
      · exact h.record (by simp)
      · next p hprepare =>
        refine h.record fun p' hp' => ?_
        cases hp'
        have hready := (ready_of_prepare hprepare).2
        exact ⟨by rw [hready.before], hready⟩
  | commit call =>
    simp only [System.step]
    split
    · next p hp =>
      split
      · exact h.record (by simp)
      · next db hinstall => exact h.commit hp hinstall
    · exact h
  | finish call =>
    simp only [System.step]
    split
    · exact h.record (by simp)
    · exact h
  | stop call =>
    refine { h with pending := fun call' p hp => h.pending call' p ?_ }
    simp only [System.step, OrdMap.get_erase] at hp
    split at hp
    · cases hp
    · exact hp

theorem run (events : List Event) :
    Refines sha256 rootBuilder context rows (s.run sha256 rootBuilder store events) := by
  induction events generalizing s with
  | nil => exact h
  | cons event events ih => exact ih (h.step event)

end Refines

/-! ## Contexts -/

theorem lastContext_cons :
    lastContext context (delta :: deltas) = lastContext delta.targetContext deltas := by
  rcases List.eq_nil_or_concat deltas with rfl | ⟨deltas, last, rfl⟩
  · rfl
  · rw [List.concat_eq_append, lastContext_snoc, ← List.cons_append, lastContext_snoc]

/-- Deltas that each start where the one before ended go up in height. -/
theorem heights_increase (h : ∀ a delta b, deltas = a ++ delta :: b →
      (lastContext context a).height < delta.targetContext.height) :
    (∀ delta ∈ deltas, context.height < delta.targetContext.height) ∧
      deltas.Pairwise fun d d' => d.targetContext.height < d'.targetContext.height := by
  induction deltas generalizing context with
  | nil => simp
  | cons delta deltas ih =>
    have hfirst := h [] delta deltas rfl
    have hrest : ∀ a d b, deltas = a ++ d :: b →
        (lastContext delta.targetContext a).height < d.targetContext.height := by
      rintro a d b rfl
      rw [← lastContext_cons]
      exact h (delta :: a) d b rfl
    obtain ⟨habove, hpairwise⟩ := ih hrest
    refine ⟨List.forall_mem_cons.mpr ⟨hfirst, fun d hd => lt_trans hfirst (habove d hd)⟩,
      List.pairwise_cons.mpr ⟨habove, hpairwise⟩⟩

def contextsOf (context : SourceCheckpointContext) (deltas : List IncrementalStateDelta) :
    List SourceCheckpointContext :=
  context :: deltas.flatMap fun delta => [delta.sourceContext, delta.targetContext]

theorem lastContext_mem : lastContext context a ∈ contextsOf context (a ++ b) := by
  rcases List.eq_nil_or_concat a with rfl | ⟨a, delta, rfl⟩
  · exact List.mem_cons_self
  · rw [List.concat_eq_append, lastContext_snoc]
    simp [contextsOf]

theorem Refines.sourceContext_eq (h : Refines sha256 rootBuilder context rows s)
    (hsha : Set.InjOn sha256 {m | m ∈
      (contextsOf context s.deltas).map SourceCheckpointContext.message})
    (hsplit : s.deltas = a ++ delta :: b) : delta.sourceContext = lastContext context a := by
  have hlast : lastContext context a ∈ contextsOf context s.deltas := hsplit ▸ lastContext_mem
  have hsource : delta.sourceContext ∈ contextsOf context s.deltas := by
    rw [hsplit]
    simp [contextsOf]
  exact SourceCheckpointContext.message_inj <| (hsha (List.mem_map_of_mem hlast)
    (List.mem_map_of_mem hsource) (h.linked a delta b hsplit).2).symm

theorem refines_start
    (h : initializeStore sha256 rootBuilder planDigest targetSchemaDigest context rows =
      .ok (store, db)) :
    Refines sha256 rootBuilder context rows (System.start db) := by
  simp only [initializeStore, bind_eq_ok, require_eq_ok, mapError_eq_ok, pure_eq_ok,
    Prod.mk.injEq] at h
  obtain ⟨-, -, ⟨⟩, -, ⟨⟩, hrows, stateRoot, -, -, -, readback, -, -, -, rfl, rfl⟩ := h
  obtain ⟨-, -, hsorted⟩ := validateTargetRows_eq_ok.mp hrows
  refine ⟨?_, rfl, rfl, rfl, by simp [System.start, System.deltas], by
    simp [System.start, System.deltas], by simp [System.start]⟩
  rw [System.start, tableRows_tableOf hsorted]
  rfl

end

/-- In every run of interleaved calls on a new store, the stored rows are the fold of the committed
deltas over the first rows, the generation counts the commits, the call of the `i`-th commit read
generation `i`, each delta starts at the context that the one before left, heights go up, and the
last delta is not prepared again. -/
theorem store_refines_delta_fold (sha256 : Bytes → Hash) {R : Type} (rootBuilder : RootBuilder R)
    {planDigest targetSchemaDigest : Hash} {context : SourceCheckpointContext}
    {rows : List TargetRow} {store : SqliteIncrementalStateStore} {db : DeltaDatabase}
    (hinit : initializeStore sha256 rootBuilder planDigest targetSchemaDigest context rows =
      .ok (store, db)) (events : List Event) :
    let s := (System.start db).run sha256 rootBuilder store events
    s.deltas.foldlM (applyTo sha256 rootBuilder) rows = .ok (tableRows s.db.table) ∧
    s.db.metadata.generation = s.deltas.length ∧
    s.committed.map (·.before.generation) = List.range s.committed.length ∧
    (Set.InjOn sha256 {m | m ∈ (contextsOf context s.deltas).map SourceCheckpointContext.message} →
      (∀ a delta b, s.deltas = a ++ delta :: b → delta.sourceContext = lastContext context a) ∧
      (∀ delta ∈ s.deltas, context.height < delta.targetContext.height) ∧
      s.deltas.Pairwise (fun d d' => d.targetContext.height < d'.targetContext.height) ∧
      s.deltas.Nodup) ∧
    ∀ delta ∈ s.deltas.getLast?, ∀ prepared,
      prepare sha256 rootBuilder store s.db delta ≠ .ok (.inr prepared) := by
  intro s
  have h : Refines sha256 rootBuilder context rows s := (refines_start hinit).run events
  refine ⟨h.fold, by rw [h.generation, System.deltas, List.length_map], h.reads, fun hsha => ?_, ?_⟩
  · have hlinked : ∀ a delta b, s.deltas = a ++ delta :: b →
        delta.sourceContext = lastContext context a := fun a delta b hsplit =>
          h.sourceContext_eq hsha hsplit
    have hup : ∀ a delta b, s.deltas = a ++ delta :: b →
        (lastContext context a).height < delta.targetContext.height := by
      intro a delta b hsplit
      rw [← hlinked a delta b hsplit]
      exact (h.linked a delta b hsplit).1.progression.2.2.1
    obtain ⟨habove, hpairwise⟩ := heights_increase hup
    refine ⟨hlinked, habove, hpairwise, hpairwise.imp ?_⟩
    rintro d _ hlt rfl
    exact lt_irrefl _ hlt
  · intro delta hdelta prepared hprepare
    obtain ⟨rfl, hready⟩ := ready_of_prepare hprepare
    exact hready.fresh (h.last _ hdelta)

def sampleDatabase : DeltaDatabase :=
  let context := (sampleContext 1 1 sampleBase).canonicalDigest residue
  ⟨⟨.ofByte 7, .ofByte 8, context, context, targetRowsDigest residue sampleBase,
    targetRowsDigest residue sampleBase, 2, 0, .zero⟩, tableOf sampleBase⟩

/-- Two calls read the new store with the same delta, and only the first commits. -/
theorem sample_race_commits_once :
    initializeStore residue residueRoot (.ofByte 7) (.ofByte 8) (sampleContext 1 1 sampleBase)
      sampleBase = .ok (⟨.ofByte 7, .ofByte 8⟩, sampleDatabase) ∧
    let s := (System.start sampleDatabase).run residue residueRoot ⟨.ofByte 7, .ofByte 8⟩
      [.begin 0 sampleDelta, .begin 1 sampleDelta, .commit 0, .commit 1, .finish 0]
    s.deltas = [sampleDelta] ∧ s.db.metadata.generation = 1 ∧
    tableRows s.db.table = sampleTarget ∧ (sampleContext 1 1 sampleBase).height < 2 := by
  have hinit : initializeStore residue residueRoot (.ofByte 7) (.ofByte 8)
      (sampleContext 1 1 sampleBase) sampleBase = .ok (⟨.ofByte 7, .ofByte 8⟩, sampleDatabase) := by
    decide +kernel
  have hdeltas : ((System.start sampleDatabase).run residue residueRoot ⟨.ofByte 7, .ofByte 8⟩
      [.begin 0 sampleDelta, .begin 1 sampleDelta, .commit 0, .commit 1, .finish 0]).deltas =
      [sampleDelta] := by decide +kernel
  have happly : [sampleDelta].foldlM (applyTo residue residueRoot) sampleBase =
      .ok sampleTarget := by
    decide +kernel
  have hapart : ∀ x ∈ (contextsOf (sampleContext 1 1 sampleBase) [sampleDelta]).map
      SourceCheckpointContext.message, ∀ y ∈ (contextsOf (sampleContext 1 1 sampleBase)
      [sampleDelta]).map SourceCheckpointContext.message, residue x = residue y → x = y := by
    decide +kernel
  obtain ⟨hfold, hgeneration, -, hcontexts, -⟩ := store_refines_delta_fold residue residueRoot hinit
    [.begin 0 sampleDelta, .begin 1 sampleDelta, .commit 0, .commit 1, .finish 0]
  rw [hdeltas] at hfold hgeneration hcontexts
  rw [happly] at hfold
  obtain ⟨-, habove, -⟩ := hcontexts fun x hx y hy => hapart x hx y hy
  exact ⟨hinit, hdeltas, hgeneration, (Except.ok.inj hfold).symm, habove _ List.mem_cons_self⟩

end Trillionnium.StateImport
