import Trillionnium.Parallel.Block
import Trillionnium.Lib.Versioned

/-!
# The commit loop follows the sequential execution

A block that is accepted has the state, the receipts and the fees of executing its transactions one
after another (`executeParallelBlock_canonical`). The invariant of the loop is `Committed`: an
object of the current state is the parent's, or it was written by a committed transaction and its
version is above the parent's. So a result whose read versions still match was computed from the
objects that are there now (`Committed.conflicted_eq`), and keeping it is executing the transaction
again (`Committed.select_eq`).
-/

namespace Trillionnium.Parallel

open Lib Pon

variable {sha256 : Bytes → Hash} {schedule : FeeSchedule} {parent state state' : State}
  {transaction : Transaction} {transactions : List Transaction}

@[simp] theorem load_eq_ok {id : Hash} : load state id = .ok v ↔ state.get id = some v := by
  unfold load
  cases state.get id <;> simp

/-! ## What a transaction depends on -/

/-- The instructions read declared objects only. -/
def Transaction.SourcesDeclared (transaction : Transaction) : Prop :=
  ∀ instruction ∈ transaction.instructions, ∀ id ∈ instruction.source,
    id ∈ transaction.declaredReads

/-- The states hold the same objects at the declared reads, and objects at the same declared
writes. -/
structure Agrees (transaction : Transaction) (state state' : State) : Prop where
  reads : ∀ id ∈ transaction.declaredReads, state.get id = state'.get id
  writes : ∀ id ∈ transaction.declaredWrites, state.get id = none ↔ state'.get id = none

theorem Instruction.run_congr {instruction : Instruction}
    (h : ∀ id ∈ instruction.source, state.get id = state'.get id) :
    instruction.run state = instruction.run state' := by
  cases instruction with
  | set target value => rfl
  | addFromRead target source delta => simp only [Instruction.run, load, h source rfl]

theorem executeTransaction_congr (hs : transaction.SourcesDeclared)
    (h : Agrees transaction state state') :
    executeTransaction state transaction schedule =
      executeTransaction state' transaction schedule := by
  have hreads : readVersions state transaction.declaredReads =
      readVersions state' transaction.declaredReads := by
    unfold readVersions
    rw [mapM_congr fun id hid => by rw [load, h.reads id hid, ← load]]
  have hpresent : (forM transaction.declaredWrites fun id =>
        require (state.get id ≠ none) ExecutionError.missingObject) =
      forM transaction.declaredWrites fun id =>
        require (state'.get id ≠ none) ExecutionError.missingObject :=
    forM_congr fun id hid => by simp only [ne_eq, h.writes id hid]
  have hrun : writesOf state transaction = writesOf state' transaction := by
    funext status
    unfold writesOf runInstructions
    rw [mapM_congr fun i hi => Instruction.run_congr fun id hid => h.reads id (hs i hi id hid)]
  simp only [executeTransaction, hreads, hpresent, hrun]

/-- The version of an object, `0` where there is none. -/
def versionAt (state : State) (id : Hash) : Nat := (state.get id).elim 0 VersionedValue.version

theorem readVersions_ok {ids : List Hash}
    (h : readVersions state ids = .ok versions) : (∀ id ∈ ids, state.get id ≠ none) ∧
      versions = .ofList (ids.map fun id => (id, versionAt state id)) := by
  simp only [readVersions, bind_eq_ok, pure_eq_ok] at h
  obtain ⟨rows, hrows, rfl⟩ := h
  have hall := forall₂_of_mapM hrows
  clear hrows
  suffices (∀ id ∈ ids, state.get id ≠ none) ∧ rows = ids.map fun id =>
      (id, versionAt state id) from
    ⟨this.1, congrArg OrdMap.ofList this.2⟩
  induction hall with
  | nil => exact ⟨by simp, rfl⟩
  | @cons id row ids rows hrow hrows ih =>
    simp only [bind_eq_ok, pure_eq_ok, load_eq_ok] at hrow
    obtain ⟨v, hv, rfl⟩ := hrow
    have hhead : (id, v.version) = (id, versionAt state id) := by simp [versionAt, hv]
    rw [hhead, ih.2]
    exact ⟨List.forall_mem_cons.mpr ⟨by simp [hv], ih.1⟩, rfl⟩

variable {executed : Speculated}

/-- What an executed transaction holds. -/
theorem executeTransaction_eq_ok : executeTransaction state transaction schedule = .ok executed ↔
      executed.transaction = transaction ∧
      meter schedule transaction = .ok (executed.usage, executed.feeCharged) ∧
      readVersions state transaction.declaredReads = .ok executed.readVersions ∧
      (∀ id ∈ transaction.declaredWrites, state.get id ≠ none) ∧
      executed.status = statusOf transaction executed.usage ∧
      writesOf state transaction executed.status = .ok executed.writes := by
  simp only [executeTransaction, bind_eq_ok, pure_eq_ok, forM_eq_ok, require_eq_ok]
  constructor
  · rintro ⟨⟨usage, fee⟩, hmeter, versions, hversions, -, hpresent, writes, hwrites, rfl⟩
    exact ⟨rfl, hmeter, hversions, hpresent, rfl, hwrites⟩
  · obtain ⟨_, versions, writes, _, usage, fee⟩ := executed
    dsimp only
    rintro ⟨rfl, hmeter, hversions, hpresent, rfl, hwrites⟩
    exact ⟨⟨usage, fee⟩, hmeter, versions, hversions, (), hpresent, writes, hwrites, rfl⟩

/-! ## Validated transactions -/

variable {access access' : OrdMap Hash Unit × OrdMap Hash Unit}

theorem addAccess_reads (h : addAccess access instruction = .ok access') {id : Hash}
    (hid : access.1.get id ≠ none ∨ id ∈ instruction.source) : access'.1.get id ≠ none := by
  simp only [addAccess, bind_eq_ok] at h
  obtain ⟨-, -, -, -, h⟩ := h
  cases hs : instruction.source with
  | none =>
    rw [hs] at h hid
    cases h
    exact hid.resolve_right (by simp)
  | some source =>
    simp only [hs, bind_eq_ok, pure_eq_ok] at h
    obtain ⟨-, -, rfl⟩ := h
    rcases hid with hid | hid
    · exact OrdMap.get_insert_ne_none hid
    · simp_all

theorem actualAccess_reads {instructions : List Instruction}
    (h : instructions.foldlM addAccess access = .ok access') {id : Hash}
    (hid : access.1.get id ≠ none ∨ ∃ i ∈ instructions, id ∈ i.source) :
    access'.1.get id ≠ none := by
  induction instructions generalizing access with
  | nil =>
    cases h
    simpa using hid
  | cons i instructions ih =>
    rw [List.foldlM_cons, bind_eq_ok] at h
    obtain ⟨next, hi, h⟩ := h
    refine ih h ?_
    rcases hid with hid | ⟨j, hj, hid⟩
    · exact .inl (addAccess_reads hi (.inl hid))
    · rcases List.mem_cons.mp hj with rfl | hj
      · exact .inl (addAccess_reads hi (.inr hid))
      · exact .inr ⟨j, hj, hid⟩

theorem validateTransaction_sources (h : validateTransaction transaction = .ok ()) :
    transaction.SourcesDeclared := by
  simp only [validateTransaction, bind_eq_ok, require_eq_ok] at h
  obtain ⟨-, -, -, -, actual, hactual, -, hreads, -⟩ := h
  intro i hi id hid
  have := actualAccess_reads hactual (.inr ⟨i, hi, hid⟩)
  rw [hreads, idSet, OrdMap.get_ofList_map (f := fun _ => ())] at this
  by_contra hn
  simp [hn] at this

theorem validateFrom_sources (h : validateFrom seen index transactions = .ok ()) :
    ∀ transaction ∈ transactions, transaction.SourcesDeclared := by
  induction transactions generalizing seen index with
  | nil => simp
  | cons transaction rest ih =>
    simp only [validateFrom, bind_eq_ok] at h
    obtain ⟨-, -, -, -, -, -, -, -, -, -, _, hvalid, h⟩ := h
    exact List.forall_mem_cons.mpr ⟨validateTransaction_sources hvalid, ih h⟩

theorem validateBlock_sources (h : validateBlock transactions workerCount = .ok ()) :
    ∀ transaction ∈ transactions, transaction.SourcesDeclared := by
  simp only [validateBlock, bind_eq_ok] at h
  obtain ⟨-, -, -, -, h⟩ := h
  exact validateFrom_sources h

/-! ## Publishing writes -/

theorem foldlM_writes {writes : List (Hash × Int)} (hs : Assoc.Sorted writes)
    (h : writes.foldlM (fun state write => do
      let value ← load state write.1
      pure (state.insert write.1 ⟨value.version + 1, write.2⟩)) state = .ok state') (id : Hash) :
    match Assoc.find id writes with
    | none => state'.get id = state.get id
    | some value => ∃ old, state.get id = some old ∧
      state'.get id = some ⟨old.version + 1, value⟩ := by
  induction writes generalizing state with
  | nil =>
    cases h
    rfl
  | cons write writes ih =>
    obtain ⟨target, value⟩ := write
    obtain ⟨hhead, htail⟩ := List.pairwise_cons.mp hs
    rw [List.foldlM_cons, bind_eq_ok] at h
    obtain ⟨next, hnext, h⟩ := h
    simp only [bind_eq_ok, pure_eq_ok, load_eq_ok] at hnext
    obtain ⟨old, hold, rfl⟩ := hnext
    have hrest := ih htail h
    by_cases hid : target = id
    · subst hid
      have hnone : Assoc.find target writes = none :=
        Assoc.find_eq_none.mpr fun v hv => lt_irrefl target (hhead _ hv)
      rw [hnone, OrdMap.get_insert_self] at hrest
      simpa [Assoc.find] using ⟨old, hold, hrest⟩
    · simpa [Assoc.find, hid, OrdMap.get_insert_ne hid] using hrest

/-- A written object gets the next version, every other object stays. -/
theorem applyWrites_get (h : applyWrites state writes = .ok state') (id : Hash) :
    match writes.get id with
    | none => state'.get id = state.get id
    | some value => ∃ old, state.get id = some old ∧
      state'.get id = some ⟨old.version + 1, value⟩ := by
  simp only [applyWrites, bind_eq_ok] at h
  obtain ⟨-, -, h⟩ := h
  exact foldlM_writes writes.sorted h id

def Speculated.wrote (executed : Speculated) (id : Hash) : Bool :=
  executed.status = .success && (executed.writes.get id).isSome

def writtenBy (executed : List Speculated) (id : Hash) : Bool := executed.any fun e => e.wrote id

theorem publish_wrote (h : publish state executed = .ok state') :
    Wrote VersionedValue.version state executed.wrote state' := by
  intro id
  unfold publish at h
  split at h
  · rename_i hstatus
    have hget := applyWrites_get h id
    cases hw : executed.writes.get id with
    | none =>
      rw [hw] at hget
      simpa [Speculated.wrote, hw] using hget
    | some value =>
      rw [hw] at hget
      obtain ⟨old, hold, hnew⟩ := hget
      simpa [Speculated.wrote, hw, hstatus] using ⟨old, hold, _, hnew, Nat.lt_succ_self _⟩
  · rename_i hstatus
    cases h
    simp [Speculated.wrote, hstatus]

/-! ## Conflicts -/

/-- The state after the transactions `done` were committed over the parent. -/
def Committed (parent : State) (done : List Speculated) (state : State) : Prop :=
  Tracks VersionedValue.version parent (writtenBy done) state

theorem Committed.refl : Committed parent [] parent := Tracks.refl

variable {done : List Speculated} (h : Committed parent done state)
include h

theorem Committed.publish (hp : publish state executed = .ok state') :
    Committed parent (done ++ [executed]) state' := by
  have hwritten : writtenBy (done ++ [executed]) = fun id =>
      writtenBy done id || executed.wrote id := by
    funext id
    simp [writtenBy]
  rw [Committed, hwritten]
  exact h.step (publish_wrote hp)

/-- A declared read of the transaction was written by one of the transactions before. -/
def readsWritten (done : List Speculated) (transaction : Transaction) : Bool :=
  transaction.declaredReads.any (writtenBy done)

variable {original : Speculated}

/-- The versions of the declared reads have changed exactly when one of them was written. -/
theorem Committed.conflicted_eq
    (he : executeTransaction parent transaction schedule = .ok original) :
    conflicted state original = readsWritten done transaction := by
  obtain ⟨-, -, hversions, -⟩ := executeTransaction_eq_ok.mp he
  obtain ⟨hpresent, hversions⟩ := readVersions_ok hversions
  have hrow : ∀ id version, (id, version) ∈ original.readVersions.entries ↔
      id ∈ transaction.declaredReads ∧ versionAt parent id = version := by
    intro id version
    rw [OrdMap.mem_entries, hversions, OrdMap.get_ofList_map]
    by_cases hid : id ∈ transaction.declaredReads <;> simp [hid]
  have hchanged : ∀ id ∈ transaction.declaredReads,
      (state.get id).map VersionedValue.version ≠ some (versionAt parent id) ↔
        writtenBy done id = true := by
    intro id hid
    obtain ⟨old, hold⟩ := Option.ne_none_iff_exists'.mp (hpresent id hid)
    obtain ⟨new, hnew⟩ := h.exists_new hold
    simpa [hold, hnew, versionAt] using h.version_ne_iff hold hnew
  apply Bool.eq_iff_iff.mpr
  simp only [conflicted, readsWritten, List.any_eq_true, Prod.exists, decide_eq_true_eq, hrow]
  constructor
  · rintro ⟨id, _, ⟨hid, rfl⟩, hne⟩
    exact ⟨id, hid, (hchanged id hid).mp hne⟩
  · rintro ⟨id, hid, hw⟩
    exact ⟨id, _, ⟨hid, rfl⟩, (hchanged id hid).mpr hw⟩

/-- Where no declared read was written, the parent and the current state agree. -/
theorem Committed.agrees (hr : readsWritten done transaction = false) :
    Agrees transaction parent state where
  reads id hid := by
    have hw : writtenBy done id = false := by
      simpa using List.any_eq_false.mp hr id hid
    exact (h.same id hw).symm
  writes _ _ := h.none_iff

/-- Keeping or repeating the speculation is executing the transaction on the current state. -/
theorem Committed.select_eq (hs : transaction.SourcesDeclared)
    (he : executeTransaction parent transaction schedule = .ok original) :
    select schedule state original = executeTransaction state transaction schedule >>=
      fun executed =>
      pure (executed, (readsWritten done transaction).toNat) := by
  unfold select
  rw [h.conflicted_eq he]
  cases hr : readsWritten done transaction with
  | true => simp [(executeTransaction_eq_ok.mp he).1]
  | false =>
    rw [← executeTransaction_congr hs (h.agrees hr), he]
    rfl

omit h

/-! ## The loop -/

/-- The receipts of transactions executed after `done`. -/
def receiptsFrom (sha256 : Bytes → Hash) (done : List Speculated) : List Speculated → List Receipt
  | [] => []
  | executed :: rest =>
    receiptOf sha256 executed (readsWritten done executed.transaction).toNat ::
      receiptsFrom sha256 (done ++ [executed]) rest

theorem stepSequential_eq_ok : stepSequential schedule state transaction = .ok (state', executed) ↔
      executeTransaction state transaction schedule = .ok executed ∧
      publish state executed = .ok state' := by
  simp only [stepSequential, bind_eq_ok, pure_eq_ok, Prod.mk.injEq]
  constructor
  · rintro ⟨executed, he, state', hp, rfl, rfl⟩
    exact ⟨he, hp⟩
  · rintro ⟨he, hp⟩
    exact ⟨executed, he, state', hp, rfl, rfl⟩

theorem runSequential_cons_eq_ok {executed : List Speculated} :
    runSequential schedule state (transaction :: transactions) = .ok (state', executed) ↔
      ∃ next first rest, stepSequential schedule state transaction = .ok (next, first) ∧
        runSequential schedule next transactions = .ok (state', rest) ∧
        executed = first :: rest := by
  simp only [runSequential, bind_eq_ok, pure_eq_ok, Prod.mk.injEq, Prod.exists]
  constructor
  · rintro ⟨next, first, hstep, _, rest, hrest, rfl, rfl⟩
    exact ⟨next, first, rest, hstep, hrest, rfl⟩
  · rintro ⟨next, first, rest, hstep, hrest, rfl⟩
    exact ⟨next, first, hstep, state', rest, hrest, rfl, rfl⟩

theorem commitOne_eq_ok (h : Committed parent done progress.state)
    (hs : transaction.SourcesDeclared)
    (he : executeTransaction parent transaction schedule = .ok original) :
    commitOne sha256 schedule progress original = .ok progress' ↔
      ∃ executed, stepSequential schedule progress.state transaction =
        .ok (progress'.state, executed) ∧
        progress'.receipts = progress.receipts ++ receiptsFrom sha256 done [executed] ∧
        chargeFee progress.fees executed = .ok progress'.fees := by
  simp only [commitOne, h.select_eq hs he, bind_assoc, pure_bind, bind_eq_ok, pure_eq_ok,
    stepSequential_eq_ok]
  constructor
  · rintro ⟨executed, hexec, state, hstate, fees, hfees, rfl⟩
    refine ⟨executed, ⟨hexec, hstate⟩, ?_, hfees⟩
    rw [receiptsFrom, receiptsFrom, (executeTransaction_eq_ok.mp hexec).1]
  · obtain ⟨state, receipts, fees⟩ := progress'
    rintro ⟨executed, ⟨hexec, hstate⟩, rfl, hfees⟩
    refine ⟨executed, hexec, state, hstate, fees, hfees, ?_⟩
    rw [receiptsFrom, receiptsFrom, (executeTransaction_eq_ok.mp hexec).1]

/-- The loop over speculations of the parent succeeds exactly when the sequential execution does and
the fees fit, and ends in its state. -/
theorem commit_eq_ok
    (h : Committed parent done progress.state)
    (hs : ∀ transaction ∈ transactions, transaction.SourcesDeclared)
    (he : List.Forall₂ (fun transaction original =>
      executeTransaction parent transaction schedule = .ok original) transactions originals) :
    originals.foldlM (commitOne sha256 schedule) progress = .ok progress' ↔
      ∃ executed, runSequential schedule progress.state transactions =
        .ok (progress'.state, executed) ∧
        progress'.receipts = progress.receipts ++ receiptsFrom sha256 done executed ∧
        executed.foldlM chargeFee progress.fees = .ok progress'.fees := by
  induction he generalizing done progress with
  | nil =>
    obtain ⟨state, receipts, fees⟩ := progress
    obtain ⟨state', receipts', fees'⟩ := progress'
    simp only [List.foldlM_nil, runSequential, pure_eq_ok, Progress.mk.injEq, Prod.mk.injEq]
    constructor
    · rintro ⟨rfl, rfl, rfl⟩
      exact ⟨[], ⟨rfl, rfl⟩, by simp [receiptsFrom], rfl⟩
    · rintro ⟨_, ⟨rfl, rfl⟩, hreceipts, hfees⟩
      cases hfees
      simpa [receiptsFrom] using hreceipts.symm
  | @cons transaction original transactions originals he _ ih =>
    obtain ⟨hs, hss⟩ := List.forall_mem_cons.mp hs
    simp only [List.foldlM_cons, bind_eq_ok, commitOne_eq_ok h hs he, runSequential_cons_eq_ok]
    constructor
    · rintro ⟨next, ⟨first, hstep, hreceipts, hfee⟩, hrest⟩
      have hnext := h.publish (stepSequential_eq_ok.mp hstep).2
      obtain ⟨rest, hrun, hreceipts', hfees⟩ := (ih hnext hss).mp hrest
      refine ⟨first :: rest, ⟨_, _, _, hstep, hrun, rfl⟩, ?_, ?_⟩
      · rw [hreceipts', hreceipts, List.append_assoc]
        rfl
      · rw [List.foldlM_cons, hfee]
        exact hfees
    · rintro ⟨_, ⟨next, first, rest, hstep, hrun, rfl⟩, hreceipts, hfees⟩
      have hnext := h.publish (stepSequential_eq_ok.mp hstep).2
      rw [List.foldlM_cons, bind_eq_ok] at hfees
      obtain ⟨fees, hfee, hfees⟩ := hfees
      refine ⟨⟨next, _, fees⟩, ⟨first, hstep, rfl, hfee⟩,
        (ih hnext hss).mpr ⟨rest, hrun, ?_, hfees⟩⟩
      rw [hreceipts, List.append_assoc]
      rfl

end Trillionnium.Parallel
