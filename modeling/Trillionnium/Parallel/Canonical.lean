import Trillionnium.Parallel.Commit

/-!
# Accepted blocks are sequential executions

What the workers hand to the commit loop (`speculateParallel_eq`), what the payers are charged
(`charge_get`, `charge_ok_iff`), and the result for accepted blocks.
-/

namespace Trillionnium.Parallel

open Lib Pon

variable {sha256 : Bytes → Hash} {schedule : FeeSchedule} {parent state state' : State}
  {transactions : List Transaction} {workerCount : Nat}

/-! ## Speculation -/

/-- The error of the first transaction, in the order in which the workers are joined, that fails
against the parent. -/
def firstFailure (parent : State) (transactions : List Transaction) (workerCount : Nat)
    (schedule : FeeSchedule) : Option ExecutionError :=
  ((joined workerCount transactions).map Prod.fst).findSome? fun transaction =>
    errorOf (executeTransaction parent transaction schedule)

theorem firstFailure_eq_none (hw : 0 < workerCount) :
    firstFailure parent transactions workerCount schedule = none ↔ ∀ transaction ∈ transactions,
        ∃ original, executeTransaction parent transaction schedule = .ok original := by
  simp only [firstFailure, List.findSome?_eq_none_iff, errorOf_eq_none,
    (map_fst_joined_perm hw transactions).mem_iff]

/-- The rows of all workers, in joining order, and then the slots they fill. -/
theorem speculateParallel_eq : speculateParallel parent transactions workerCount schedule =
    ((joined workerCount transactions).mapM fun x => do
      let speculated ← executeTransaction parent x.1 schedule
      pure (x.2, speculated)) >>= fun rows =>
        (fill rows (List.replicate transactions.length none)).mapM fun row =>
          row.elim (.error .missingWorkerResult) .ok := by
  have hrows : (List.range workerCount).flatMap
        (workerRows parent transactions workerCount schedule) =
      (joined workerCount transactions).map fun x =>
        (x.2, executeTransaction parent x.1 schedule) :=
    (List.map_flatMap ..).symm
  simp only [speculateParallel, hrows, foldlM_fill, List.mapM_map, Function.comp_def, bind_assoc,
    pure_bind]

/-- The speculation fails with the first failure in joining order. -/
theorem speculateParallel_error
    (h : firstFailure parent transactions workerCount schedule = some e) :
    speculateParallel parent transactions workerCount schedule = .error e := by
  have hrows : ((joined workerCount transactions).mapM fun x => do
      let speculated ← executeTransaction parent x.1 schedule
      pure (x.2, speculated)) = .error e := by
    simp only [mapM_eq_error, errorOf_bind_pure]
    rwa [firstFailure, List.findSome?_map] at h
  rw [speculateParallel_eq, hrows]
  rfl

/-- Without a failure it gives the outcomes against the parent in index order. -/
theorem speculateParallel_ok (hw : 0 < workerCount)
    (h : firstFailure parent transactions workerCount schedule = none) :
    ∃ originals, speculateParallel parent transactions workerCount schedule = .ok originals ∧
      transactions.mapM (executeTransaction parent · schedule) = .ok originals := by
  have hall := (firstFailure_eq_none hw).mp h
  choose! original horiginal using hall
  refine ⟨transactions.map original, ?_, mapM_eq_ok horiginal⟩
  have hrows : ((joined workerCount transactions).mapM fun x => do
      let speculated ← executeTransaction parent x.1 schedule
      pure (x.2, speculated)) =
        .ok ((joined workerCount transactions).map fun x => (x.2, original x.1)) := by
    refine mapM_eq_ok fun x hx => ?_
    have hmem := (map_fst_joined_perm hw transactions).mem_iff.mp (List.mem_map_of_mem hx)
    rw [horiginal _ hmem]
    rfl
  rw [speculateParallel_eq, hrows]
  show (fill _ _).mapM _ = _
  rw [fill_joined hw, List.mapM_map]
  exact mapM_eq_ok fun _ _ => rfl

/-! ## Fees -/

def paid (executed : List Speculated) (payer : Hash) : Nat :=
  ((executed.filter fun e => e.transaction.payer = payer).map Speculated.feeCharged).sum

theorem paid_cons : paid (first :: rest) payer =
      (if first.transaction.payer = payer then first.feeCharged else 0) + paid rest payer := by
  by_cases h : first.transaction.payer = payer <;> simp [paid, h]

variable {fees fees' : OrdMap Hash Nat}

theorem chargeFee_eq_ok : chargeFee fees executed = .ok fees' ↔
      (fees.get executed.transaction.payer).getD 0 + executed.feeCharged < 2 ^ 128 ∧
        fees' = fees.insert executed.transaction.payer
          ((fees.get executed.transaction.payer).getD 0 + executed.feeCharged) := by
  simp only [chargeFee, bind_eq_ok, fits_eq_ok, pure_eq_ok]
  constructor
  · rintro ⟨_, ⟨hlt, rfl⟩, rfl⟩
    exact ⟨hlt, rfl⟩
  · rintro ⟨hlt, rfl⟩
    exact ⟨_, ⟨hlt, rfl⟩, rfl⟩

variable {executed : List Speculated}

theorem charge_get (h : executed.foldlM chargeFee fees = .ok fees') (payer : Hash) :
    fees'.get payer = if ∃ e ∈ executed, e.transaction.payer = payer then
      some ((fees.get payer).getD 0 + paid executed payer) else fees.get payer := by
  induction executed generalizing fees with
  | nil =>
    cases h
    simp
  | cons first rest ih =>
    rw [List.foldlM_cons, bind_eq_ok] at h
    obtain ⟨next, hfirst, hrest⟩ := h
    obtain ⟨-, rfl⟩ := chargeFee_eq_ok.mp hfirst
    rw [ih hrest, paid_cons]
    by_cases hp : first.transaction.payer = payer
    · subst hp
      have hzero : (¬∃ e ∈ rest, e.transaction.payer = first.transaction.payer) →
          paid rest first.transaction.payer = 0 := fun hn => by
        have : rest.filter (fun e => e.transaction.payer = first.transaction.payer) = [] :=
          List.filter_eq_nil_iff.mpr fun e he => by simpa using fun hep => hn ⟨e, he, hep⟩
        simp [paid, this]
      by_cases hr : ∃ e ∈ rest, e.transaction.payer = first.transaction.payer
      · simp [hr, Nat.add_assoc]
      · simp [hzero hr, hr]
    · simp [OrdMap.get_insert_ne hp, hp]

/-- Charging succeeds exactly when no payer's total overflows. -/
theorem charge_ok_iff (hfees : ∀ payer, (fees.get payer).getD 0 < 2 ^ 128) :
    (∃ fees', executed.foldlM chargeFee fees = .ok fees') ↔
      ∀ payer, (fees.get payer).getD 0 + paid executed payer < 2 ^ 128 := by
  induction executed generalizing fees with
  | nil => exact ⟨fun _ payer => by simpa [paid] using hfees payer, fun _ => ⟨fees, rfl⟩⟩
  | cons first rest ih =>
    -- the totals after the first charge
    have hnext : ∀ payer, ((fees.insert first.transaction.payer
        ((fees.get first.transaction.payer).getD 0 + first.feeCharged)).get payer).getD 0 =
          (fees.get payer).getD 0 + if first.transaction.payer = payer then
            first.feeCharged else 0 := by
      intro payer
      rw [OrdMap.get_insert]
      split
      · subst_vars; rfl
      · rfl
    have hstep : ∀ payer, (fees.get first.transaction.payer).getD 0 + first.feeCharged < 2 ^ 128 →
        (fees.get payer).getD 0 + (if first.transaction.payer = payer then first.feeCharged
          else 0) < 2 ^ 128 := by
      intro payer hlt
      split
      · subst_vars; exact hlt
      · exact hfees payer
    have hiff := fun hlt => ih fun payer => (hnext payer).symm ▸ hstep payer hlt
    simp only [hnext] at hiff
    simp only [List.foldlM_cons, bind_eq_ok, chargeFee_eq_ok, paid_cons, ← Nat.add_assoc]
    constructor
    · rintro ⟨fees', _, ⟨hlt, rfl⟩, hrest⟩
      exact (hiff hlt).mp ⟨fees', hrest⟩
    · intro h
      have hlt := h first.transaction.payer
      rw [if_pos rfl] at hlt
      have hlt := Nat.lt_of_le_of_lt (Nat.le_add_right _ _) hlt
      obtain ⟨fees', hrest⟩ := (hiff hlt).mpr h
      exact ⟨fees', _, ⟨hlt, rfl⟩, hrest⟩

theorem charge_sum (h : executed.foldlM chargeFee fees = .ok fees') :
    fees'.sum (fun _ n => n) = fees.sum (fun _ n => n) +
      (executed.map Speculated.feeCharged).sum := by
  induction executed generalizing fees with
  | nil =>
    cases h
    simp
  | cons first rest ih =>
    rw [List.foldlM_cons, bind_eq_ok] at h
    obtain ⟨next, hfirst, hrest⟩ := h
    obtain ⟨-, rfl⟩ := chargeFee_eq_ok.mp hfirst
    have hsum := fees.sum_insert (k := first.transaction.payer)
      (v := (fees.get first.transaction.payer).getD 0 + first.feeCharged) (fun _ n => n)
    rw [ih hrest, List.map_cons, List.sum_cons]
    cases hget : fees.get first.transaction.payer with
    | none => simp [hget] at hsum ⊢; omega
    | some n => simp [hget] at hsum ⊢; omega

/-! ## Receipts -/

variable {done executed : List Speculated}

theorem getElem?_receiptsFrom : (receiptsFrom sha256 done executed)[i]? = executed[i]?.map fun e =>
      receiptOf sha256 e (readsWritten (done ++ executed.take i) e.transaction).toNat := by
  induction executed generalizing done i with
  | nil => rfl
  | cons first rest ih =>
    cases i with
    | zero => simp [receiptsFrom]
    | succ i => simp [receiptsFrom, ih]

theorem length_receiptsFrom : (receiptsFrom sha256 done executed).length = executed.length := by
  induction executed generalizing done with
  | nil => rfl
  | cons first rest ih => simp [receiptsFrom, ih]

theorem feeCharged_receiptsFrom :
    (receiptsFrom sha256 done executed).map Receipt.feeCharged =
      executed.map Speculated.feeCharged := by
  induction executed generalizing done with
  | nil => rfl
  | cons first rest ih => simp [receiptsFrom, ih, receiptOf]

theorem readsWritten_take :
    readsWritten (executed.take i) transaction = true ↔ ∃ j < i, ∃ earlier,
      executed[j]? = some earlier ∧ earlier.status = .success ∧
        ∃ id ∈ transaction.declaredReads, earlier.writes.get id ≠ none := by
  have hmem : ∀ earlier, earlier ∈ executed.take i ↔ ∃ j < i, executed[j]? = some earlier := by
    intro earlier
    simp [List.mem_iff_getElem?, List.getElem?_take]
  simp only [readsWritten, writtenBy, Speculated.wrote, List.any_eq_true, hmem, Bool.and_eq_true,
    decide_eq_true_eq, Option.isSome_iff_ne_none]
  constructor
  · rintro ⟨id, hid, earlier, ⟨j, hj, he⟩, hstatus, hw⟩
    exact ⟨j, hj, earlier, he, hstatus, id, hid, hw⟩
  · rintro ⟨j, hj, earlier, he, hstatus, id, hid, hw⟩
    exact ⟨id, hid, earlier, ⟨j, hj, he⟩, hstatus, hw⟩

/-! ## Accepted blocks -/

theorem runSequential_transactions
    (h : runSequential schedule state transactions = .ok (state', executed)) :
    executed.map Speculated.transaction = transactions := by
  induction transactions generalizing state executed with
  | nil =>
    cases h
    rfl
  | cons transaction rest ih =>
    obtain ⟨next, first, others, hstep, hrest, rfl⟩ := runSequential_cons_eq_ok.mp h
    rw [List.map_cons, ih hrest, (executeTransaction_eq_ok.mp (stepSequential_eq_ok.mp hstep).1).1]

theorem validateBlock_workers (h : validateBlock transactions workerCount = .ok ()) :
    0 < workerCount ∧ workerCount ≤ maxParallelWorkers := by
  simp only [validateBlock, bind_eq_ok, require_eq_ok] at h
  obtain ⟨-, -, -, hw, -⟩ := h
  exact ⟨Nat.pos_of_ne_zero hw.1, hw.2⟩

/-- A block is accepted exactly when it is valid, every transaction executes against the parent, the
sequential execution succeeds and the fees fit. -/
theorem executeParallelBlock_eq_ok :
    executeParallelBlock sha256 parent transactions workerCount schedule = .ok result ↔
      validateBlock transactions workerCount = .ok () ∧
      firstFailure parent transactions workerCount schedule = none ∧
      ∃ final executed fees, runSequential schedule parent transactions = .ok (final, executed) ∧
        executed.foldlM chargeFee ∅ = .ok fees ∧
        result = finish sha256 workerCount ⟨final, receiptsFrom sha256 [] executed, fees⟩ := by
  have hparent : Committed parent [] (Progress.mk parent [] ∅).state := .refl
  simp only [executeParallelBlock, bind_eq_ok, pure_eq_ok]
  constructor
  · rintro ⟨_, hv, originals, horiginals, ⟨final, receipts, fees⟩, hcommit, rfl⟩
    cases hfail : firstFailure parent transactions workerCount schedule with
    | some e =>
      rw [speculateParallel_error hfail] at horiginals
      cases horiginals
    | none =>
      obtain ⟨originals', hspec, hall⟩ := speculateParallel_ok (validateBlock_workers hv).1 hfail
      cases hspec.symm.trans horiginals
      obtain ⟨executed, hrun, rfl, hfees⟩ :=
        (commit_eq_ok hparent (validateBlock_sources hv) (forall₂_of_mapM hall)).mp hcommit
      exact ⟨hv, rfl, final, executed, fees, hrun, hfees, by simp⟩
  · rintro ⟨hv, hnone, final, executed, fees, hrun, hfees, rfl⟩
    obtain ⟨originals, hspec, hall⟩ := speculateParallel_ok (validateBlock_workers hv).1 hnone
    exact ⟨(), hv, originals, hspec, ⟨final, receiptsFrom sha256 [] executed, fees⟩,
      (commit_eq_ok hparent (validateBlock_sources hv) (forall₂_of_mapM hall)).mpr
        ⟨executed, hrun, rfl, hfees⟩, rfl⟩

theorem mem_feeDeltas :
    d ∈ feeDeltas fees ↔ fees.get d.payer = some d.payerDebit ∧ d.feeSinkCredit = d.payerDebit := by
  obtain ⟨payer, debit, credit⟩ := d
  simp only [feeDeltas, List.mem_map, Prod.exists, OrdMap.mem_entries, FeeDelta.mk.injEq]
  constructor
  · rintro ⟨_, _, hget, rfl, rfl, rfl⟩
    exact ⟨hget, rfl⟩
  · rintro ⟨hget, rfl⟩
    exact ⟨payer, _, hget, rfl, rfl, rfl⟩

/-- An accepted block has the state, the receipts and the fee deltas of its transactions executed
one after another. A transaction was executed twice exactly when an earlier successful one wrote
something it declares to read, and the payers are debited what the receipts charge. -/
theorem executeParallelBlock_canonical {result : BlockResult}
    (h : executeParallelBlock sha256 parent transactions workerCount schedule = .ok result) :
    ∃ executed : List Speculated,
      runSequential schedule parent transactions = .ok (result.state, executed) ∧
      executed.map Speculated.transaction = transactions ∧
      result.receipts.length = transactions.length ∧
      (∀ (i : Nat) (e : Speculated), executed[i]? = some e → ∃ r, result.receipts[i]? = some r ∧
        r = receiptOf sha256 e r.retryCount ∧ r.retryCount ≤ 1 ∧
        (r.retryCount = 1 ↔ ∃ j < i, ∃ earlier, executed[j]? = some earlier ∧
          earlier.status = .success ∧
          ∃ id ∈ e.transaction.declaredReads, earlier.writes.get id ≠ none)) ∧
      (∀ d, d ∈ result.feeDeltas ↔ (∃ e ∈ executed, e.transaction.payer = d.payer) ∧
        d.payerDebit = paid executed d.payer ∧ d.feeSinkCredit = d.payerDebit) ∧
      result.feeDeltas.Pairwise (fun d d' => d.payer < d'.payer) ∧
      (result.feeDeltas.map FeeDelta.payerDebit).sum =
        (result.receipts.map Receipt.feeCharged).sum := by
  obtain ⟨-, -, final, executed, fees, hrun, hfees, rfl⟩ := executeParallelBlock_eq_ok.mp h
  have htransactions := runSequential_transactions hrun
  refine ⟨executed, hrun, htransactions, ?_, ?_, ?_, ?_, ?_⟩
  · rw [← htransactions, List.length_map]
    exact length_receiptsFrom
  · intro i e he
    refine ⟨receiptOf sha256 e (readsWritten (executed.take i) e.transaction).toNat, ?_, rfl,
      Bool.toNat_le _, ?_⟩
    · exact getElem?_receiptsFrom.trans (by rw [he, List.nil_append]; rfl)
    · rw [← readsWritten_take]
      exact Bool.toNat_eq_one
  · intro d
    show d ∈ feeDeltas fees ↔ _
    rw [mem_feeDeltas, charge_get hfees]
    by_cases hd : ∃ e ∈ executed, e.transaction.payer = d.payer
    · simp only [hd, if_true, OrdMap.get_emptyCollection, Option.getD_none, Nat.zero_add,
        Option.some.injEq, true_and]
      rw [eq_comm]
    · simp [hd]
  · exact List.pairwise_map.mpr fees.sorted
  · have hdebits : ((feeDeltas fees).map FeeDelta.payerDebit).sum = fees.sum fun _ n => n := by
      simp only [feeDeltas, List.map_map]
      rfl
    have hcharges := charge_sum hfees
    show ((feeDeltas fees).map FeeDelta.payerDebit).sum =
      ((receiptsFrom sha256 [] executed).map Receipt.feeCharged).sum
    rw [hdebits, hcharges, feeCharged_receiptsFrom]
    exact Nat.zero_add _

def sampleSchedule : FeeSchedule := ⟨1, 2, 3, 5, 7⟩

def sampleParent : State :=
  .ofList [(.ofByte 1, ⟨0, 10⟩), (.ofByte 2, ⟨0, 20⟩), (.ofByte 3, ⟨0, 0⟩)]

/-- A transaction that adds `delta` to the value of `source` and stores it in `target`. -/
def sampleTransaction (index : Nat) (id payer source target : UInt8) (delta : Int) :
    Transaction where
  index := index
  transactionId := .ofByte id
  payer := .ofByte payer
  declaredReads := [.ofByte source]
  declaredWrites := [.ofByte target]
  instructions := [.addFromRead (.ofByte target) (.ofByte source) delta]
  baseComputeUnits := 5
  artifactUnits := 1
  resourceLimit := ⟨100, 10, 10, 10⟩
  maxFee := 10000
  forceRevert := false

/-- The second transaction reads what the first writes. -/
def sampleTransactions : List Transaction :=
  [sampleTransaction 0 11 21 1 3 1, sampleTransaction 1 12 22 3 2 2]

theorem sample_canonical : ∃ result executed,
    executeParallelBlock (fun _ => Hash.zero) sampleParent sampleTransactions 2 sampleSchedule =
      .ok result ∧
    runSequential sampleSchedule sampleParent sampleTransactions = .ok (result.state, executed) ∧
    result.receipts.map Receipt.retryCount = [0, 1] := by
  obtain ⟨result, hresult, hretry⟩ : ∃ result,
      executeParallelBlock (fun _ => Hash.zero) sampleParent sampleTransactions 2 sampleSchedule =
        .ok result ∧ result.receipts.map Receipt.retryCount = [0, 1] := ⟨_, rfl, rfl⟩
  obtain ⟨executed, hrun, -⟩ := executeParallelBlock_canonical hresult
  exact ⟨result, executed, hresult, hrun, hretry⟩

/-! ## Versions -/

/-- The object has `n` versions more than before, and is the one before if it has none more. -/
def Rises (n : Nat) (old new : Option VersionedValue) : Prop :=
  new.map VersionedValue.version = old.map (·.version + n) ∧ (n = 0 → new = old)

theorem Rises.trans (h : Rises n first second)
    (h' : Rises m second third) : Rises (n + m) first third := by
  cases first <;> cases second <;> cases third <;> grind [Rises]

theorem rises_publish (h : publish state e = .ok state') (id : Hash) :
    Rises (e.wrote id).toNat (state.get id) (state'.get id) := by
  unfold publish at h
  split at h
  · next hstatus =>
    have hget := applyWrites_get h id
    cases hw : e.writes.get id with
    | none =>
      rw [hw] at hget
      simp [Rises, Speculated.wrote, hw, hget]
    | some value =>
      rw [hw] at hget
      obtain ⟨old, hold, hnew⟩ := hget
      simp [Rises, Speculated.wrote, hw, hstatus, hold, hnew]
  · next hstatus =>
    cases h
    simp [Rises, Speculated.wrote, hstatus]

theorem rises_run (h : runSequential schedule state transactions = .ok (state', executed))
    (id : Hash) :
    Rises (executed.countP (·.wrote id)) (state.get id) (state'.get id) := by
  induction transactions generalizing state executed with
  | nil =>
    cases h
    simp [Rises]
  | cons transaction rest ih =>
    obtain ⟨next, first, others, hstep, hrest, rfl⟩ := runSequential_cons_eq_ok.mp h
    have hrises := (rises_publish (stepSequential_eq_ok.mp hstep).2 id).trans (ih hrest)
    rw [List.countP_cons, Nat.add_comm]
    cases hwrote : first.wrote id <;> simpa [hwrote] using hrises

/-- In an accepted block the version of an object rises by the number of successful transactions
that wrote it, an object that none wrote is unchanged, and none is created or removed. -/
theorem versions_count_writes {result : BlockResult}
    (h : executeParallelBlock sha256 parent transactions workerCount schedule = .ok result) :
    ∃ executed, runSequential schedule parent transactions = .ok (result.state, executed) ∧
      ∀ id, Rises (executed.countP (·.wrote id)) (parent.get id) (result.state.get id) := by
  obtain ⟨-, -, final, executed, fees, hrun, -, rfl⟩ := executeParallelBlock_eq_ok.mp h
  exact ⟨executed, hrun, rises_run hrun⟩

theorem sample_versions : ∃ (result : BlockResult) (executed : List Speculated),
    runSequential sampleSchedule sampleParent sampleTransactions = .ok (result.state, executed) ∧
    Rises (executed.countP (·.wrote (.ofByte 2))) (sampleParent.get (.ofByte 2))
      (result.state.get (.ofByte 2)) := by
  obtain ⟨result, hresult⟩ : ∃ result, executeParallelBlock (fun _ => Hash.zero) sampleParent
      sampleTransactions 2 sampleSchedule = .ok result := ⟨_, rfl⟩
  obtain ⟨executed, hrun, hrises⟩ := versions_count_writes hresult
  exact ⟨result, executed, hrun, hrises _⟩

end Trillionnium.Parallel
