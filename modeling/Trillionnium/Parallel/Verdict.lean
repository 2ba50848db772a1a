import Trillionnium.Parallel.Canonical

/-!
# What decides about a block

The workers execute every transaction against the parent, and the first failure met when they are
joined rejects the block. So the number of workers can choose between the errors of several failing
transactions (`FailsFirst`, `worker_count_verdict`), and a block whose sequential execution succeeds
is rejected when an addition overflows on a value of the parent that an earlier transaction replaces
(`speculation_accepts_iff`).
-/

namespace Trillionnium.Parallel

open Lib Pon

variable {sha256 : Bytes → Hash} {schedule : FeeSchedule} {parent state state' : State}
  {transaction : Transaction} {transactions : List Transaction}

/-! ## The number of workers -/

/-- The error is that of the transaction that fails against the parent at the least
(position mod `workerCount`, position). -/
def FailsFirst (parent : State) (transactions : List Transaction) (workerCount : Nat)
    (schedule : FeeSchedule) (e : ExecutionError) : Prop :=
  ∃ transaction i, transactions[i]? = some transaction ∧
    executeTransaction parent transaction schedule = .error e ∧
    ∀ other j, transactions[j]? = some other →
      (∃ e', executeTransaction parent other schedule = .error e') →
        toLex (i % workerCount, i) ≤ toLex (j % workerCount, j)

theorem firstFailure_eq_some (hw : 0 < workerCount) :
    firstFailure parent transactions workerCount schedule = some e ↔
      FailsFirst parent transactions workerCount schedule e := by
  rw [firstFailure, List.findSome?_map, findSome?_eq_some_of_sorted (joined_sorted ..)]
  simp only [(joined_perm hw transactions).mem_iff, List.mem_zipIdx_iff_getElem?, Prod.exists,
    Prod.forall, Function.comp, Option.ne_none_iff_exists', errorOf_eq_some, FailsFirst]

/-- A result without the number of workers. -/
def BlockResult.verdict (result : BlockResult) : BlockResult := { result with workerCount := 0 }

theorem validateBlock_congr (hw : 0 < workers ∧ workers ≤ maxParallelWorkers)
    (hw' : 0 < workers' ∧ workers' ≤ maxParallelWorkers) :
    validateBlock transactions workers = validateBlock transactions workers' := by
  have h : (workers ≠ 0 ∧ workers ≤ maxParallelWorkers) ↔
      (workers' ≠ 0 ∧ workers' ≤ maxParallelWorkers) := by omega
  simp only [validateBlock, h]

theorem executeParallelBlock_failure (hv : validateBlock transactions workers = .ok ())
    (h : firstFailure parent transactions workers schedule = some e) :
    executeParallelBlock sha256 parent transactions workers schedule = .error e := by
  rw [executeParallelBlock, hv, speculateParallel_error h]
  rfl

/-- Without a failure against the parent, the number of workers shows in its own field only. -/
theorem verdict_eq_of_no_failure (hv : validateBlock transactions workers = .ok ())
    (hv' : validateBlock transactions workers' = .ok ())
    (h : firstFailure parent transactions workers schedule = none) :
    (executeParallelBlock sha256 parent transactions workers schedule).map BlockResult.verdict =
      (executeParallelBlock sha256 parent transactions workers' schedule).map
        BlockResult.verdict := by
  have hw := (validateBlock_workers hv).1
  have hw' := (validateBlock_workers hv').1
  have h' : firstFailure parent transactions workers' schedule = none :=
    (firstFailure_eq_none hw').mpr ((firstFailure_eq_none hw).mp h)
  obtain ⟨originals, hspec, hall⟩ := speculateParallel_ok hw h
  obtain ⟨_, hspec', hall'⟩ := speculateParallel_ok hw' h'
  cases hall.symm.trans hall'
  rw [executeParallelBlock, executeParallelBlock, hv, hv', hspec, hspec']
  show Except.map _ (originals.foldlM (commitOne sha256 schedule) ⟨parent, [], ∅⟩ >>= _) =
    Except.map _ (originals.foldlM (commitOne sha256 schedule) ⟨parent, [], ∅⟩ >>= _)
  cases originals.foldlM (commitOne sha256 schedule) ⟨parent, [], ∅⟩ <;> rfl

/-- Two numbers of workers give the same verdict on a block exactly when it is invalid or its first
failures against the parent, each number in its own order, are the same error. -/
theorem worker_count_verdict {workers workers' : Nat}
    (hw : 0 < workers ∧ workers ≤ maxParallelWorkers)
    (hw' : 0 < workers' ∧ workers' ≤ maxParallelWorkers) :
    (executeParallelBlock sha256 parent transactions workers schedule).map BlockResult.verdict =
        (executeParallelBlock sha256 parent transactions workers' schedule).map
          BlockResult.verdict ↔
      (validateBlock transactions workers = .ok () → ∀ e,
        FailsFirst parent transactions workers schedule e ↔
          FailsFirst parent transactions workers' schedule e) := by
  simp only [← firstFailure_eq_some hw.1, ← firstFailure_eq_some hw'.1, ← Option.ext_iff]
  have hcongr : validateBlock transactions workers = validateBlock transactions workers' :=
    validateBlock_congr hw hw'
  cases hv : validateBlock transactions workers with
  | error e =>
    have herror : ∀ n, validateBlock transactions n = .error e →
        executeParallelBlock sha256 parent transactions n schedule = .error e := by
      intro n hn
      rw [executeParallelBlock, hn]
      rfl
    simp [herror _ hv, herror _ (hcongr ▸ hv)]
  | ok u =>
    have hv' := hcongr ▸ hv
    have hnone : firstFailure parent transactions workers schedule = none ↔
        firstFailure parent transactions workers' schedule = none :=
      (firstFailure_eq_none hw.1).trans (firstFailure_eq_none hw'.1).symm
    rw [imp_iff_right (show (.ok u : Outcome Unit) = .ok () from rfl)]
    cases hf : firstFailure parent transactions workers schedule with
    | none => simp [verdict_eq_of_no_failure hv hv' hf, hnone.mp hf]
    | some e =>
      cases hf' : firstFailure parent transactions workers' schedule with
      | none => simp [hnone.mpr hf'] at hf
      | some e' =>
        rw [executeParallelBlock_failure hv hf, executeParallelBlock_failure hv' hf']
        simp [Except.map]

theorem sample_worker_count_verdict :
    (executeParallelBlock (fun _ => Hash.zero) sampleParent sampleTransactions 1
        sampleSchedule).map BlockResult.verdict =
      (executeParallelBlock (fun _ => Hash.zero) sampleParent sampleTransactions 64
        sampleSchedule).map BlockResult.verdict :=
  (worker_count_verdict (by decide) (by decide)).mpr fun _ e => by
    rw [← firstFailure_eq_some (by decide), ← firstFailure_eq_some (by decide)]
    rfl

/-- The second transaction reads an object that does not exist, the third pays no fee. -/
def failingTransactions : List Transaction :=
  [sampleTransaction 0 11 21 1 3 1, sampleTransaction 1 12 22 9 2 2,
    { sampleTransaction 2 13 23 1 2 2 with maxFee := 0 }]

theorem worker_count_chooses_error :
    executeParallelBlock (fun _ => Hash.zero) sampleParent failingTransactions 1 sampleSchedule =
        .error .missingObject ∧
      executeParallelBlock (fun _ => Hash.zero) sampleParent failingTransactions 2 sampleSchedule =
        .error .feeLimitExceeded :=
  ⟨rfl, rfl⟩

/-! ## Blocks that only the speculation rejects -/

/-- The objects that exist stay the same along the commits. -/
def SamePresence (state state' : State) : Prop := ∀ id, state.get id = none ↔ state'.get id = none

theorem publish_presence (h : publish state executed = .ok state') : SamePresence state state' := by
  intro id
  exact (Tracks.refl.step (publish_wrote h)).none_iff

variable {executed : List Speculated}

/-- Each transaction of a sequential execution ran on a state with the objects of the first. -/
theorem runSequential_executed
    (h : runSequential schedule state transactions = .ok (state', executed)) :
    ∀ e ∈ executed, ∃ current, SamePresence state current ∧
      executeTransaction current e.transaction schedule = .ok e := by
  induction transactions generalizing state executed with
  | nil =>
    cases h
    simp
  | cons transaction rest ih =>
    obtain ⟨next, first, others, hstep, hrest, rfl⟩ := runSequential_cons_eq_ok.mp h
    obtain ⟨hexec, hpublish⟩ := stepSequential_eq_ok.mp hstep
    refine List.forall_mem_cons.mpr ⟨⟨state, fun _ => Iff.rfl, ?_⟩, fun e he => ?_⟩
    · rwa [(executeTransaction_eq_ok.mp hexec).1]
    · obtain ⟨current, hpresence, hexec⟩ := ih hrest e he
      exact ⟨current, fun id => (publish_presence hpublish id).trans (hpresence id), hexec⟩

theorem exists_readVersions :
    (∃ versions, readVersions state ids = .ok versions) ↔ ∀ id ∈ ids, state.get id ≠ none := by
  refine ⟨fun ⟨versions, h⟩ => (readVersions_ok h).1, fun h => ?_⟩
  have hrow : ∀ id ∈ ids, (do
      let value ← load state id
      pure (id, value.version)) = (.ok (id, versionAt state id) : Outcome _) := by
    intro id hid
    obtain ⟨v, hv⟩ := Option.ne_none_iff_exists'.mp (h id hid)
    simp [load, versionAt, hv]
  exact ⟨_, by rw [readVersions, mapM_eq_ok hrow]; rfl⟩

theorem exists_writesOf :
    (∃ writes, writesOf state transaction status = .ok writes) ↔
      (status = .success → ∀ i ∈ transaction.instructions, ∃ row, i.run state = .ok row) := by
  unfold writesOf runInstructions
  split
  · rename_i hs
    simp only [hs, true_imp_iff, ← exists_mapM_eq_ok, bind_eq_ok, pure_eq_ok]
    constructor
    · rintro ⟨_, rows, hrows, -⟩
      exact ⟨rows, hrows⟩
    · rintro ⟨rows, hrows⟩
      exact ⟨_, rows, hrows, rfl⟩
  · rename_i hs
    exact ⟨fun _ h => absurd h hs, fun _ => ⟨∅, rfl⟩⟩

/-- A transaction executes when it can be charged, its objects exist, and its instructions run in
case it is to succeed. -/
theorem exists_executeTransaction : (∃ e, executeTransaction state transaction schedule = .ok e) ↔
      ∃ usage fee, meter schedule transaction = .ok (usage, fee) ∧
        (∀ id ∈ transaction.declaredReads, state.get id ≠ none) ∧
        (∀ id ∈ transaction.declaredWrites, state.get id ≠ none) ∧
          (statusOf transaction usage = .success →
          ∀ i ∈ transaction.instructions, ∃ row, i.run state = .ok row) := by
  rw [← exists_readVersions]
  simp only [executeTransaction_eq_ok, ← exists_writesOf]
  constructor
  · rintro ⟨e, -, hmeter, hreads, hpresent, hstatus, hwrites⟩
    exact ⟨e.usage, e.feeCharged, hmeter, ⟨_, hreads⟩, hpresent, _, hstatus ▸ hwrites⟩
  · rintro ⟨usage, fee, hmeter, ⟨versions, hversions⟩, hpresent, writes, hwrites⟩
    exact ⟨⟨transaction, versions, writes, _, usage, fee⟩, rfl, hmeter, hversions, hpresent, rfl,
      hwrites⟩

theorem exists_run {instruction : Instruction} :
    (∃ row, instruction.run state = .ok row) ↔ ∀ target source delta,
      instruction = .addFromRead target source delta →
        ∃ v, state.get source = some v ∧ InI128 (v.value + delta) := by
  cases instruction with
  | set target value => simp [Instruction.run]
  | addFromRead target source delta =>
    simp only [Instruction.run, bind_eq_ok, pure_eq_ok, load_eq_ok, Instruction.addFromRead.injEq]
    constructor
    · rintro ⟨_, v, hv, sum, hsum, -⟩ _ _ _ ⟨rfl, rfl, rfl⟩
      refine ⟨v, hv, ?_⟩
      by_contra hn
      simp [checkedAdd, hn] at hsum
    · intro h
      obtain ⟨v, hv, hfit⟩ := h target source delta ⟨rfl, rfl, rfl⟩
      exact ⟨_, v, hv, v.value + delta, by simp [checkedAdd, hfit], rfl⟩

theorem usageOf_of_meter
    (h : meter schedule transaction = .ok (usage, fee)) : usageOf transaction = .ok usage := by
  simp only [meter, bind_eq_ok, pure_eq_ok, Prod.mk.injEq] at h
  obtain ⟨_, husage, _, -, _, -, rfl, -⟩ := h
  exact husage

/-- The additions of the transactions that are to succeed stay in range on the parent's values. -/
def AdditionsFit (parent : State) (transactions : List Transaction) : Prop :=
  ∀ transaction ∈ transactions, ∀ usage, usageOf transaction = .ok usage →
    statusOf transaction usage = .success →
    ∀ target source delta, .addFromRead target source delta ∈ transaction.instructions →
      ∀ v, parent.get source = some v → InI128 (v.value + delta)

/-- What a transaction is charged, on whatever state it executes. -/
def feeOf (schedule : FeeSchedule) (transaction : Transaction) : Nat :=
  match meter schedule transaction with
  | .ok (_, fee) => fee
  | .error _ => 0

/-- The charges of no payer add up to more than an unsigned integer of 128 bits holds. -/
def FeesFit (schedule : FeeSchedule) (transactions : List Transaction) : Prop :=
  ∀ payer, ((transactions.filter fun t => t.payer = payer).map (feeOf schedule)).sum < 2 ^ 128

/-- A transaction that executes on a state with the parent's objects executes on the parent exactly
when its additions fit there. -/
theorem exists_executeTransaction_parent
    (hs : transaction.SourcesDeclared) (hp : SamePresence parent current)
    (he : executeTransaction current transaction schedule = .ok e) :
    (∃ original, executeTransaction parent transaction schedule = .ok original) ↔
      AdditionsFit parent [transaction] := by
  obtain ⟨usage, fee, hmeter, hreads, hwrites, -⟩ := exists_executeTransaction.mp ⟨e, he⟩
  have hpresent : ∀ {id}, current.get id ≠ none → parent.get id ≠ none := fun h => (hp _).not.mpr h
  simp only [exists_executeTransaction, exists_run, AdditionsFit, List.forall_mem_singleton]
  constructor
  · rintro ⟨usage', fee', hmeter', -, -, hrun⟩ _ husage hstatus target source delta hi v hv
    cases hmeter.symm.trans hmeter'
    cases (usageOf_of_meter hmeter).symm.trans husage
    obtain ⟨v', hv', hfit⟩ := hrun hstatus _ hi _ _ _ rfl
    cases hv.symm.trans hv'
    exact hfit
  · intro hfit
    refine ⟨usage, fee, hmeter, fun id hid => hpresent (hreads id hid),
      fun id hid => hpresent (hwrites id hid), ?_⟩
    rintro hstatus _ hi target source delta rfl
    obtain ⟨v, hv⟩ := Option.ne_none_iff_exists'.mp (hpresent (hreads source (hs _ hi source rfl)))
    exact ⟨v, hv, hfit usage (usageOf_of_meter hmeter) hstatus target source delta hi v hv⟩

theorem firstFailure_eq_none_iff (hw : 0 < workers)
    (hs : ∀ transaction ∈ transactions, transaction.SourcesDeclared)
    (hrun : runSequential schedule parent transactions = .ok (state', executed)) :
    firstFailure parent transactions workers schedule = none ↔
      AdditionsFit parent transactions := by
  have hall : ∀ transaction ∈ transactions, (∃ original,
      executeTransaction parent transaction schedule = .ok original) ↔
        AdditionsFit parent [transaction] := by
    intro transaction ht
    have hsources := hs transaction ht
    rw [← runSequential_transactions hrun] at ht
    obtain ⟨e, he, rfl⟩ := List.mem_map.mp ht
    obtain ⟨current, hp, he⟩ := runSequential_executed hrun e he
    exact exists_executeTransaction_parent hsources hp he
  rw [firstFailure_eq_none hw, forall₂_congr hall]
  simp only [AdditionsFit, List.forall_mem_singleton]

theorem paid_eq (hrun : runSequential schedule parent transactions = .ok (state', executed))
    (payer : Hash) :
    paid executed payer = ((transactions.filter fun t => t.payer = payer).map
      (feeOf schedule)).sum := by
  have hfee : ∀ e ∈ executed, e.feeCharged = feeOf schedule e.transaction := by
    intro e he
    obtain ⟨current, -, he⟩ := runSequential_executed hrun e he
    rw [feeOf, (executeTransaction_eq_ok.mp he).2.1]
  rw [← runSequential_transactions hrun, paid, List.filter_map, List.map_map]
  exact congrArg List.sum (List.map_congr_left fun e he => hfee e (List.mem_of_mem_filter he))

/-- A valid block whose sequential execution succeeds is accepted exactly when the additions fit on
the values of the parent and the fees of each payer fit. -/
theorem speculation_accepts_iff {workers : Nat} {final : State × List Speculated}
    (hv : validateBlock transactions workers = .ok ())
    (hrun : runSequential schedule parent transactions = .ok final) :
    (∃ result, executeParallelBlock sha256 parent transactions workers schedule = .ok result) ↔
      AdditionsFit parent transactions ∧ FeesFit schedule transactions := by
  obtain ⟨state', executed⟩ := final
  have hfees : (∃ fees, executed.foldlM chargeFee ∅ = .ok fees) ↔
      FeesFit schedule transactions := by
    rw [charge_ok_iff fun _ => by simp]
    simp only [OrdMap.get_emptyCollection, Option.getD_none, Nat.zero_add, paid_eq hrun]
    rfl
  rw [← firstFailure_eq_none_iff (validateBlock_workers hv).1 (validateBlock_sources hv) hrun,
    ← hfees]
  simp only [executeParallelBlock_eq_ok]
  constructor
  · rintro ⟨result, -, hnone, _, executed', fees, hrun', hfees, -⟩
    cases hrun.symm.trans hrun'
    exact ⟨hnone, fees, hfees⟩
  · rintro ⟨hnone, fees, hfees⟩
    exact ⟨_, hv, hnone, state', executed, fees, hrun, hfees, rfl⟩

theorem sample_speculation_accepts : validateBlock sampleTransactions 4 = .ok () ∧
    ((∃ result, executeParallelBlock (fun _ => Hash.zero) sampleParent sampleTransactions 4
        sampleSchedule = .ok result) ↔
      AdditionsFit sampleParent sampleTransactions ∧ FeesFit sampleSchedule sampleTransactions) :=
  ⟨rfl, speculation_accepts_iff rfl rfl⟩

/-- The largest value of `i128` and another object. -/
def fullParent : State := .ofList [(.ofByte 1, ⟨0, 2 ^ 127 - 1⟩), (.ofByte 2, ⟨0, 0⟩)]

/-- The first transaction lowers the value that the second one adds to. -/
def loweringTransactions : List Transaction :=
  [{ sampleTransaction 0 11 21 1 1 0 with
      declaredReads := [], instructions := [.set (.ofByte 1) 0] },
    sampleTransaction 1 12 22 1 2 1]

theorem speculation_rejects_sequential_block :
    validateBlock loweringTransactions 1 = .ok () ∧
      (∃ final, runSequential sampleSchedule fullParent loweringTransactions = .ok final) ∧
      executeParallelBlock (fun _ => Hash.zero) fullParent loweringTransactions 1 sampleSchedule =
        .error .arithmeticOverflow :=
  ⟨rfl, ⟨_, rfl⟩, rfl⟩

end Trillionnium.Parallel
