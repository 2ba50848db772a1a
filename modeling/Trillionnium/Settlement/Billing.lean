import Trillionnium.Lib.Keyed
import Trillionnium.Settlement.Steps

/-!
# Billing and settlement

The charge of a receipt chain is the priced sum of its usage, and the settlement divides the escrow
into the provider's payment, the protocol fee and the consumer's refund without loss.
-/

namespace Trillionnium.Settlement

open Lib Pon
open Mvcc (ProtocolContext)

variable {crypto : Crypto} {trust : TrustBundle}

/-! ## Charges -/

def entryCharge (trust : TrustBundle) (entry : ResourceUsage) : Nat :=
  (findPrice trust entry).elim 0 fun price => entry.amount.toNat * price.unitPrice.toNat

def usageCharge (trust : TrustBundle) (usage : List ResourceUsage) : Nat :=
  (usage.map (entryCharge trust)).sum

/-- The priced usage of all receipts. -/
def chainCharge (trust : TrustBundle) (bodies : List ConsumptionReceiptBody) : Nat :=
  (bodies.map fun body => usageCharge trust body.usage).sum

theorem foldlM_priceEntry (h : usage.foldlM (priceEntry trust) start = .ok total) :
    total.toNat = start.toNat + usageCharge trust usage ∧ ∀ entry ∈ usage,
    findPrice trust entry ≠ none := by
  induction usage generalizing start with
  | nil =>
    cases h
    simp [usageCharge]
  | cons entry rest ih =>
    rw [List.foldlM_cons, bind_eq_ok] at h
    obtain ⟨next, hnext, h⟩ := h
    simp only [priceEntry, bind_eq_ok, okOr, getOr_eq_ok, checkedMul_eq_ok,
      checkedAdd_eq_ok] at hnext
    obtain ⟨price, hprice, charge, hcharge, hnext⟩ := hnext
    obtain ⟨htotal, hpriced⟩ := ih h
    refine ⟨?_, List.forall_mem_cons.mpr ⟨by simp [hprice], hpriced⟩⟩
    simp only [usageCharge, List.map_cons, List.sum_cons, entryCharge, hprice,
      Option.elim_some] at htotal ⊢
    omega

/-! ## Chains -/

theorem getElem?_snoc {α : Type} {l : List α} {a b : α} (h : (l ++ [a])[i]? = some b) :
    l[i]? = some b ∨ (i = l.length ∧ b = a) := by
  rw [List.getElem?_append] at h
  split at h
  · exact .inl h
  · next hi =>
    have hzero : i - l.length = 0 := by
      by_contra hne
      rw [List.getElem?_eq_none (by simp; omega)] at h
      cases h
    rw [hzero] at h
    exact .inr ⟨by omega, (Option.some.inj h).symm⟩

namespace Chain
variable {bodies : List ConsumptionReceiptBody}

variable (h : Chain crypto trust bodies)
include h

/-- Receipts are numbered from one, and each covers a period. -/
theorem sequence {i : Nat} {body : ConsumptionReceiptBody} (hi : bodies[i]? = some body) :
    body.sequence.toNat = i + 1 ∧ body.periodStartHeight ≤ body.periodEndHeight := by
  induction h with
  | nil => simp at hi
  | snoc _ hnext ih =>
    rcases getElem?_snoc hi with hi | ⟨rfl, rfl⟩
    · exact ih hi
    · exact ⟨hnext.sequence, hnext.ordered⟩

/-- A period starts right after the one before it. -/
theorem contiguous {i : Nat} {a b : ConsumptionReceiptBody}
    (ha : bodies[i]? = some a) (hb : bodies[i + 1]? = some b) :
    b.periodStartHeight.toNat = a.periodEndHeight.toNat + 1 := by
  induction h with
  | nil => simp at ha
  | @snoc bodies body _ hnext ih =>
    rcases getElem?_snoc hb with hb | ⟨hi, rfl⟩
    · have hlt : i + 1 < bodies.length := (List.getElem?_eq_some_iff.mp hb).1
      rw [List.getElem?_append_left (by omega)] at ha
      exact ih ha hb
    · rw [List.getElem?_append_left (by omega)] at ha
      refine hnext.contiguous a ?_
      rw [List.getLast?_eq_getElem?, Option.mem_def, ← ha]
      congr 1
      omega

/-- The last cumulative charge is the charge of the whole chain, and the escrow covers it. -/
theorem charge {last : ConsumptionReceiptBody} (hlast : bodies.getLast? = some last) :
    last.cumulativeCharge.toNat = chainCharge trust bodies ∧
    last.cumulativeCharge ≤ trust.escrowFunding := by
  induction h generalizing last with
  | nil => simp at hlast
  | @snoc bodies body hchain hnext ih =>
    rw [List.getLast?_concat] at hlast
    cases hlast
    refine ⟨?_, hnext.funded⟩
    obtain ⟨period, hperiod, hcharge⟩ := hnext.charge
    have hprior : (bodies.getLast?.elim 0 fun last => last.cumulativeCharge.toNat) =
        chainCharge trust bodies := by
      cases hb : bodies.getLast? with
      | none =>
        rw [List.getLast?_eq_none_iff] at hb
        subst hb
        rfl
      | some prior => exact (ih hb).1
    have hpriced := (foldlM_priceEntry hperiod).1
    rw [hcharge, hprior, hpriced]
    simp [chainCharge]

theorem priced : ∀ body ∈ bodies, ∀ entry ∈ body.usage, findPrice trust entry ≠ none := by
  induction h with
  | nil => simp
  | snoc _ hnext ih =>
    intro body hbody
    rcases List.mem_append.mp hbody with hbody | hbody
    · exact ih body hbody
    · obtain ⟨period, hperiod, -⟩ := hnext.charge
      rw [List.mem_singleton.mp hbody]
      exact (foldlM_priceEntry hperiod).2

end Chain

/-! ## Accounts -/

def accountFunds (accounts : List AccountBalanceState) : Nat :=
  (accounts.map fun account => account.balance.toNat).sum

def accountBalance (accounts : List AccountBalanceState) (id : Hash) : Nat :=
  (accounts.find? fun account => account.accountId = id).elim 0 fun account => account.balance.toNat

def deltasFor (deltas : List ValueDelta) (id : Hash) : Nat :=
  sumAt (·.accountId) (·.amount.toNat) deltas id

variable {accounts : List AccountBalanceState} {account : AccountBalanceState}

theorem accountFunds_replace (updated : AccountBalanceState)
    (h : accounts.find? (fun a => a.accountId = updated.accountId) = some account) :
    accountFunds (replaceAccount updated accounts) + account.balance.toNat =
      accountFunds accounts + updated.balance.toNat := by
  induction accounts with
  | nil => simp at h
  | cons a rest ih =>
    rw [List.find?_cons] at h
    by_cases ha : a.accountId = updated.accountId
    · simp only [ha, decide_true, Option.some.injEq] at h
      subst h
      simp [replaceAccount, ha, accountFunds]
      omega
    · simp only [ha, decide_false] at h
      have := ih h
      simp only [replaceAccount, ha, if_false, accountFunds, List.map_cons, List.sum_cons] at this ⊢
      omega

theorem accountBalance_replace (updated : AccountBalanceState) {id : Hash}
    (h : accounts.find? (fun a => a.accountId = updated.accountId) = some account) :
    accountBalance (replaceAccount updated accounts) id =
      if updated.accountId = id then updated.balance.toNat else accountBalance accounts id := by
  induction accounts with
  | nil => simp at h
  | cons a rest ih =>
    rw [List.find?_cons] at h
    by_cases ha : a.accountId = updated.accountId
    · by_cases hid : updated.accountId = id <;> simp [replaceAccount, accountBalance, ha, hid]
    · simp only [ha, decide_false] at h
      have hrest := ih h
      by_cases haid : a.accountId = id
      · subst haid
        simp [replaceAccount, accountBalance, ha, Ne.symm ha]
      · simp only [accountBalance] at hrest
        simp [replaceAccount, accountBalance, ha, haid, hrest]

variable {accounts accounts' : List AccountBalanceState}

theorem applyDelta_spec {delta : ValueDelta}
    (h : applyDelta crypto accounts delta = .ok (accounts', entry)) :
    accountFunds accounts' = accountFunds accounts + delta.amount.toNat ∧ ∀ id,
        accountBalance accounts' id =
        accountBalance accounts id + if delta.accountId = id then delta.amount.toNat else 0 := by
  simp only [applyDelta, creditAccount, bind_eq_ok, pure_eq_ok, okOr, getOr_eq_ok,
    checkedAdd_eq_ok, Prod.mk.injEq] at h
  obtain ⟨account, hfind, updated, ⟨balance, hbalance, version, -, rfl⟩, _, -, rfl, -⟩ := h
  have hid : account.accountId = delta.accountId := by simpa using List.find?_some hfind
  have hfind' : accounts.find? (fun a => a.accountId = account.accountId) = some account :=
    hid ▸ hfind
  constructor
  · have := accountFunds_replace { account with balance := balance, version := version } hfind'
    dsimp only at this
    omega
  · intro id
    rw [accountBalance_replace { account with balance := balance, version := version } hfind', hid]
    split
    · next heq =>
      subst heq
      rw [hbalance, accountBalance, hfind]
      rfl
    · rfl

variable {entries : List PostAccountVersionEntry}

theorem applyDeltas_spec
    (h : applyDeltas crypto accounts deltas = .ok (accounts', entries)) : accountFunds accounts' =
        accountFunds accounts + (deltas.map fun delta => delta.amount.toNat).sum ∧
      ∀ id, accountBalance accounts' id = accountBalance accounts id + deltasFor deltas id := by
  induction deltas generalizing accounts entries with
  | nil =>
    cases h
    simp [deltasFor]
  | cons delta rest ih =>
    simp only [applyDeltas, bind_eq_ok, pure_eq_ok, Prod.mk.injEq] at h
    obtain ⟨⟨next, _⟩, hdelta, ⟨_, _⟩, hrest, rfl, -⟩ := h
    obtain ⟨hfunds, hbalance⟩ := applyDelta_spec hdelta
    obtain ⟨hfunds', hbalance'⟩ := ih hrest
    constructor
    · rw [hfunds', List.map_cons, List.sum_cons, ← Nat.add_assoc, ← hfunds]
    · intro id
      rw [hbalance', hbalance]
      simp only [deltasFor, sumAt_cons, Nat.add_assoc]

theorem outputTotal_sum {deltas : List ValueDelta}
    (h : deltas.foldlM (fun total delta => checkedAdd total delta.amount
      (overflow "settlement output total overflow")) start = .ok total) :
    total.toNat = start.toNat + (deltas.map fun delta => delta.amount.toNat).sum := by
  induction deltas generalizing start with
  | nil =>
    cases h
    simp
  | cons delta rest ih =>
    rw [List.foldlM_cons, bind_eq_ok] at h
    obtain ⟨next, hnext, h⟩ := h
    have := ih h
    rw [checkedAdd_eq_ok] at hnext
    simp only [List.map_cons, List.sum_cons]
    omega

/-! ## The division -/

theorem divide_spec (h : divide policy balance total = .ok d) :
    d.protocolFee.toNat = total.toNat * policy.protocolFeeNumerator.toNat /
        policy.protocolFeeDenominator.toNat ∧ d.providerPayment.toNat + d.protocolFee.toNat =
          total.toNat ∧
      d.consumerRefund.toNat + total.toNat = balance.toNat := by
  simp only [divide, bind_eq_ok, pure_eq_ok, checkedMul_eq_ok, checkedSub_eq_ok] at h
  obtain ⟨_, -, product, hproduct, payment, hpayment, refund, hrefund, rfl⟩ := h
  exact ⟨by rw [BitVec.toNat_udiv, hproduct], hpayment, hrefund⟩

theorem deltasFor_delta {account id : Hash} :
    deltasFor (delta trust account reason amount) id = if account = id then
      amount.toNat else 0 := by
  unfold delta
  split
  · simp [deltasFor, sumAt_cons]
  · next hzero =>
    have : amount.toNat = 0 := by
      rw [BitVec.lt_def] at hzero
      simpa using hzero
    simp [deltasFor, this]

/-- Each of three different accounts receives its own part. -/
theorem deltasFor_planned
    (hdistinct : [trust.providerAccountId, trust.consumerAccountId,
      trust.protocolAccountId].Nodup) :
    deltasFor (plannedDeltas trust d) trust.providerAccountId = d.providerPayment.toNat ∧
      deltasFor (plannedDeltas trust d) trust.consumerAccountId = d.consumerRefund.toNat ∧
      deltasFor (plannedDeltas trust d) trust.protocolAccountId = d.protocolFee.toNat := by
  have hplanned : ∀ id, deltasFor (plannedDeltas trust d) id =
      (if trust.providerAccountId = id then d.providerPayment.toNat else 0) +
      (if trust.consumerAccountId = id then d.consumerRefund.toNat else 0) +
      (if trust.protocolAccountId = id then d.protocolFee.toNat else 0) := fun id => by
    rw [deltasFor, plannedDeltas, sumAt_perm (List.perm_insertionSort _ _), sumAt_append,
      sumAt_append]
    exact congrArg₂ _ (congrArg₂ _ deltasFor_delta deltasFor_delta) deltasFor_delta
  simp only [List.nodup_cons, List.mem_cons, List.not_mem_nil, or_false, not_or] at hdistinct
  obtain ⟨⟨hpc, hpt⟩, hct, -⟩ := hdistinct
  refine ⟨?_, ?_, ?_⟩ <;>
    simp [hplanned, hpc, hpt, hct, Ne.symm hpc, Ne.symm hpt, Ne.symm hct]

/-! ## Opening balances -/

theorem accountBalance_of_mem (hdistinct : (accounts.map (·.accountId)).Nodup)
    (h : account ∈ accounts) :
    accountBalance accounts account.accountId = account.balance.toNat := by
  induction accounts with
  | nil => cases h
  | cons a rest ih =>
    rw [List.map_cons, List.nodup_cons] at hdistinct
    rcases List.mem_cons.mp h with rfl | h
    · simp [accountBalance]
    · have hne : a.accountId ≠ account.accountId := fun heq =>
        hdistinct.1 (heq ▸ List.mem_map_of_mem h)
      have := ih hdistinct.2 h
      simp only [accountBalance] at this
      simp [accountBalance, hne, this]

/-- The three accounts in the order of the trust bundle. -/
def openingAccounts (trust : TrustBundle) : List AccountBalanceState :=
  [⟨trust.providerAccountId, 0, trust.providerOpeningBalance⟩,
    ⟨trust.consumerAccountId, 0, trust.consumerOpeningBalance⟩,
    ⟨trust.protocolAccountId, 0, trust.protocolOpeningBalance⟩]

theorem initialState_accounts_perm : (initialState trust).accounts.Perm (openingAccounts trust) :=
  List.perm_insertionSort _ _

theorem accountBalance_initial
    (hdistinct : [trust.providerAccountId, trust.consumerAccountId,
      trust.protocolAccountId].Nodup) :
    accountBalance (initialState trust).accounts trust.providerAccountId =
        trust.providerOpeningBalance.toNat ∧
      accountBalance (initialState trust).accounts trust.consumerAccountId =
        trust.consumerOpeningBalance.toNat ∧
      accountBalance (initialState trust).accounts trust.protocolAccountId =
        trust.protocolOpeningBalance.toNat := by
  have hopening : ∀ account ∈ openingAccounts trust,
      accountBalance (initialState trust).accounts account.accountId = account.balance.toNat :=
    fun _ h => accountBalance_of_mem ((initialState_accounts_perm.map _).nodup_iff.mpr hdistinct)
      (initialState_accounts_perm.mem_iff.mpr h)
  simpa [openingAccounts] using hopening

theorem validateTrustBundle_accounts (h : validateTrustBundle crypto trust = .ok ()) :
    [trust.providerAccountId, trust.consumerAccountId, trust.protocolAccountId].Nodup := by
  simp only [validateTrustBundle, bind_eq_ok, require_eq_ok] at h
  obtain ⟨_, -, _, -, _, -, _, -, _, hdistinct, -⟩ := h
  exact hdistinct

/-! ## Coherent states -/

def Command.isSettle : Command → Bool
  | .settle _ => true
  | _ => false

/-- What holds in a state after the commands `done` were applied to the initial state. -/
structure Coherent (crypto : Crypto) (trust : TrustBundle) (done : List (U64 × Command))
    (s : KernelState) : Prop where
  chain : Chain crypto trust s.bodies
  rolled : ∀ rollup, s.rollup = some rollup → ∃ last, s.bodies.getLast? = some last ∧
    rollup.rollup.body.usageTotals = usageTotals last.cumulativeUsage ∧
    rollup.rollup.body.totalCharge = last.cumulativeCharge
  unsettled : s.settlement = none → s.escrow.balance = trust.escrowFunding ∧
    s.accounts = (initialState trust).accounts ∧ ∀ step ∈ done, step.2.isSettle = false
  settled : ∀ settlement, s.settlement = some settlement → s.escrow.balance = 0 ∧
    done.countP (fun step => step.2.isSettle) = 1 ∧
    (∀ step ∈ done, step.2.isSettle = true → step.1 = settlement.appliedHeight) ∧
    ∃ rollup division, s.rollup = some rollup ∧
      rollup.challengeCloseHeight < settlement.appliedHeight ∧
      divide trust.settlementPolicy trust.escrowFunding rollup.rollup.body.totalCharge =
        .ok division ∧
      outputTotal (plannedDeltas trust division) = .ok trust.escrowFunding ∧
      ∃ entries, applyDeltas crypto (initialState trust).accounts (plannedDeltas trust division) =
        .ok (s.accounts, entries)

theorem Coherent.initial : Coherent crypto trust [] (initialState trust) where
  chain := .nil
  rolled _ h := by cases h
  unsettled _ := ⟨rfl, rfl, by simp⟩
  settled _ h := by cases h

theorem Coherent.step {step : U64 × Command}
    (h : Coherent crypto trust done s) (hstep : Step crypto trust s step.1 step.2 t) :
    Coherent crypto trust (done ++ [step]) t := by
  obtain ⟨height, command⟩ := step
  -- receipts and rollups are not admitted after a settlement
  have hnone : ∀ command : Command, s.settlement = none → command.isSettle = false →
      ∀ step ∈ done ++ [(height, command)], step.2.isSettle = false := by
    intro command hs hcommand step hmem
    rcases List.mem_append.mp hmem with hmem | hmem
    · exact (h.unsettled hs).2.2 step hmem
    · rw [List.mem_singleton.mp hmem]
      exact hcommand
  cases hstep with
  | @receipt _ receipt id hrollup hsettlement hnext =>
    refine ⟨?_, fun rollup hr => ?_, fun hs => ?_, fun settlement hs => ?_⟩
    · rw [KernelState.bodies, List.map_append]
      exact .snoc h.chain hnext
    · rw [show s.rollup = some rollup from hr] at hrollup
      cases hrollup
    · exact ⟨(h.unsettled hsettlement).1, (h.unsettled hsettlement).2.1, hnone _ hsettlement rfl⟩
    · rw [show s.settlement = some settlement from hs] at hsettlement
      cases hsettlement
  | @rollup _ closeHeight rollup receipts last assigned id hrollup hsettlement hlast hassigned
      htotals hcharge =>
    have hbodies : assigned.map (·.receipt.body) = s.bodies := by
      simpa [KernelState.bodies, Function.comp_def] using congrArg (List.map (·.body)) hassigned
    refine ⟨?_, fun rollup' hr => ?_, fun hs => ?_, fun settlement hs => ?_⟩
    · change Chain crypto trust (assigned.map (·.receipt.body))
      rw [hbodies]
      exact h.chain
    · cases hr
      refine ⟨last.receipt.body, ?_, htotals, hcharge⟩
      rw [KernelState.bodies, hbodies, getLast?_bodies, hlast]
      rfl
    · exact ⟨(h.unsettled hsettlement).1, (h.unsettled hsettlement).2.1, hnone _ hsettlement rfl⟩
    · rw [show s.settlement = some settlement from hs] at hsettlement
      cases hsettlement
  | @settle _ _ operation rollup rollup' division deltas accounts settlement hrollup hsettles
      hreceipts hrollup' hsame hclose hbalance haccounts hsettlement hheight hdeltas =>
    obtain ⟨hfunded, hopening, hfresh⟩ := h.unsettled hsettles.unsettled
    have hbodies : t.bodies = s.bodies := by rw [KernelState.bodies, hreceipts, KernelState.bodies]
    refine ⟨hbodies ▸ h.chain, fun r hr => ?_, fun hs => ?_, fun st hst => ?_⟩
    · rw [hrollup'] at hr
      cases hr
      rw [hbodies, hsame]
      exact h.rolled rollup hrollup
    · rw [hsettlement] at hs
      cases hs
    · rw [hsettlement] at hst
      cases hst
      refine ⟨hbalance, ?_, ?_, rollup', division, hrollup', ?_, ?_, ?_, ?_⟩
      · rw [List.countP_append, List.countP_eq_zero.mpr (by simpa using hfresh)]
        rfl
      · intro step hmem hstep
        rcases List.mem_append.mp hmem with hmem | hmem
        · rw [hfresh step hmem] at hstep
          cases hstep
        · rw [List.mem_singleton.mp hmem, hheight]
      · rw [hclose, hheight]
        exact hsettles.mature
      · rw [hsame, ← hfunded]
        exact hsettles.divided
      · rw [← hfunded, ← hsettles.planned]
        exact hsettles.total
      · rw [← hopening, ← hsettles.planned, haccounts]
        exact hsettles.credited

theorem Coherent.run
    (h : run crypto trust (initialState trust) steps = .ok s) : Coherent crypto trust steps s :=
  run_induct (P := Coherent crypto trust) (fun _ _ _ _ h hstep => h.step hstep) .initial h

/-! ## Exact billing -/

/-- The escrow went to the provider, the protocol and the consumer, each on top of its opening
balance, and the fee is the floored share of the charge. -/
structure PaidOut (trust : TrustBundle) (accounts : List AccountBalanceState)
    (charge payment fee refund : Nat) : Prop where
  fee_eq : fee = charge * trust.settlementPolicy.protocolFeeNumerator.toNat /
    trust.settlementPolicy.protocolFeeDenominator.toNat
  fee_le : fee ≤ charge
  whole : payment + fee + refund = trust.escrowFunding.toNat
  provider : accountBalance accounts trust.providerAccountId =
    trust.providerOpeningBalance.toNat + payment
  protocol : accountBalance accounts trust.protocolAccountId =
    trust.protocolOpeningBalance.toNat + fee
  consumer : accountBalance accounts trust.consumerAccountId =
    trust.consumerOpeningBalance.toNat + refund

theorem applyDeltas_paidOut
    (hdistinct : [trust.providerAccountId, trust.consumerAccountId, trust.protocolAccountId].Nodup)
    (hdivision : divide trust.settlementPolicy trust.escrowFunding charge = .ok division)
    (hcredited : applyDeltas crypto (initialState trust).accounts (plannedDeltas trust division) =
      .ok (accounts, entries)) :
    PaidOut trust accounts charge.toNat division.providerPayment.toNat division.protocolFee.toNat
      division.consumerRefund.toNat := by
  obtain ⟨hfee, hpayment, hrefund⟩ := divide_spec hdivision
  obtain ⟨-, hbalance⟩ := applyDeltas_spec hcredited
  obtain ⟨hprovider, hconsumer, hprotocol⟩ := deltasFor_planned (d := division) hdistinct
  obtain ⟨hprovider', hconsumer', hprotocol'⟩ := accountBalance_initial hdistinct
  exact ⟨hfee, by omega, by omega, by rw [hbalance, hprovider, hprovider'],
    by rw [hbalance, hprotocol, hprotocol'], by rw [hbalance, hconsumer, hconsumer']⟩

/-- What a state owes to the commands that led to it. -/
structure ExactBilling (trust : TrustBundle) (steps : List (U64 × Command)) (s : KernelState) :
    Prop where
  sequences : ∀ i body, s.bodies[i]? = some body →
    body.sequence.toNat = i + 1 ∧ body.periodStartHeight ≤ body.periodEndHeight
  contiguous : ∀ i a b, s.bodies[i]? = some a → s.bodies[i + 1]? = some b →
    b.periodStartHeight.toNat = a.periodEndHeight.toNat + 1
  priced : ∀ body ∈ s.bodies, ∀ entry ∈ body.usage, findPrice trust entry ≠ none
  charged : ∀ last ∈ s.bodies.getLast?, last.cumulativeCharge.toNat = chainCharge trust s.bodies ∧
    last.cumulativeCharge ≤ trust.escrowFunding
  rolled : ∀ rollup ∈ s.rollup, rollup.rollup.body.totalCharge.toNat = chainCharge trust s.bodies ∧
    rollup.rollup.body.totalCharge ≤ trust.escrowFunding
  conserved : s.escrow.balance.toNat + accountFunds s.accounts =
    (initialState trust).escrow.balance.toNat + accountFunds (initialState trust).accounts
  once : steps.countP (fun step => step.2.isSettle) ≤ 1
  /-- A settlement comes after the challenge window and pays the whole escrow. -/
  paid : ∀ step ∈ steps, step.2.isSettle = true → s.escrow.balance = 0 ∧
    ∃ rollup, s.rollup = some rollup ∧ rollup.challengeCloseHeight < step.1 ∧
      ∃ payment fee refund, PaidOut trust s.accounts rollup.rollup.body.totalCharge.toNat
        payment fee refund

namespace Coherent
variable {steps : List (U64 × Command)} {s : KernelState} (h : Coherent crypto trust steps s)
include h

theorem rolled_charge (hrollup : s.rollup = some rollup) :
    rollup.rollup.body.totalCharge.toNat = chainCharge trust s.bodies ∧
      rollup.rollup.body.totalCharge ≤ trust.escrowFunding := by
  obtain ⟨last, hlast, -, hcharge⟩ := h.rolled rollup hrollup
  rw [hcharge]
  exact h.chain.charge hlast

/-- The escrow and the accounts hold together what they held at first. -/
theorem conserved : s.escrow.balance.toNat + accountFunds s.accounts =
      (initialState trust).escrow.balance.toNat + accountFunds (initialState trust).accounts := by
  cases hs : s.settlement with
  | none =>
    obtain ⟨hbalance, haccounts, -⟩ := h.unsettled hs
    rw [hbalance, haccounts]
    rfl
  | some settlement =>
    obtain ⟨hbalance, -, -, rollup, division, -, -, -, htotal, entries, hcredited⟩ := h.settled _ hs
    have hfunds := (applyDeltas_spec hcredited).1
    have htotal := outputTotal_sum htotal
    have hescrow : (initialState trust).escrow.balance = trust.escrowFunding := rfl
    rw [hfunds, hescrow, htotal, hbalance]
    simp
    omega

theorem settle_once : steps.countP (fun step => step.2.isSettle) ≤ 1 := by
  cases hs : s.settlement with
  | none =>
    rw [List.countP_eq_zero.mpr (by simpa using (h.unsettled hs).2.2)]
    exact Nat.zero_le 1
  | some settlement => exact (h.settled settlement hs).2.1.le

theorem paid
    (hdistinct : [trust.providerAccountId, trust.consumerAccountId, trust.protocolAccountId].Nodup)
    {step : U64 × Command} (hstep : step ∈ steps) (hsettle : step.2.isSettle = true) :
    s.escrow.balance = 0 ∧
      ∃ rollup, s.rollup = some rollup ∧ rollup.challengeCloseHeight < step.1 ∧
        ∃ payment fee refund, PaidOut trust s.accounts rollup.rollup.body.totalCharge.toNat
          payment fee refund := by
  cases hs : s.settlement with
  | none =>
    rw [(h.unsettled hs).2.2 step hstep] at hsettle
    cases hsettle
  | some settlement =>
    obtain ⟨hbalance, -, hheight, rollup, division, hrollup, hclose, hdivision, -, entries,
      hcredited⟩ := h.settled _ hs
    rw [← hheight step hstep hsettle] at hclose
    exact ⟨hbalance, rollup, hrollup, hclose, _, _, _,
      applyDeltas_paidOut hdistinct hdivision hcredited⟩

end Coherent

/-- Every run from an accepted trust bundle bills exactly the priced usage and settles the escrow
at most once, without loss. -/
theorem run_exactBilling {steps : List (U64 × Command)} {s : KernelState}
    (htrust : validateTrustBundle crypto trust = .ok ())
    (h : run crypto trust (initialState trust) steps = .ok s) : ExactBilling trust steps s := by
  have hs := Coherent.run h
  exact {
    sequences := fun _ _ hi => hs.chain.sequence hi
    contiguous := fun _ _ _ ha hb => hs.chain.contiguous ha hb
    priced := hs.chain.priced
    charged := fun _ hlast => hs.chain.charge hlast
    rolled := fun _ hrollup => hs.rolled_charge hrollup
    conserved := hs.conserved
    once := hs.settle_once
    paid := fun _ hstep hsettle =>
      hs.paid (validateTrustBundle_accounts htrust) hstep hsettle }

/-! ## A settled run -/

def sampleCrypto : Crypto := ⟨fun _ => .ofByte 9, fun _ => true, fun _ _ _ => true⟩

def sampleContext : ProtocolContext := ⟨[1], .ofByte 1, [1], 1, .ofByte 1⟩

/-- One resource at two units of value, and a tenth of the charge as the protocol's fee. -/
def sampleTrust : TrustBundle where
  schemaVersion := 1
  context := sampleContext
  initialOrderHeight := 0
  initialOrderBlockId := .ofByte 1
  provider := ⟨.ofByte 1, .ofByte 1, .ofByte 1, 1, 1⟩
  consumer := ⟨.ofByte 2, .ofByte 2, .ofByte 2, 1, 1⟩
  taskId := .ofByte 3
  leaseId := .ofByte 3
  attempt := 1
  resultId := .ofByte 3
  resultRevision := 1
  resultStatus := 3
  escrowId := .ofByte 3
  escrowVersion := 1
  assetId := .ofByte 3
  escrowFunding := 100
  providerAccountId := .ofByte 4
  consumerAccountId := .ofByte 5
  protocolAccountId := .ofByte 6
  providerOpeningBalance := 0
  consumerOpeningBalance := 10
  protocolOpeningBalance := 0
  prices := [⟨1, [1], [1], 1, 1, 2⟩]
  acceptedEvidenceCertificates := [.ofByte 7]
  relatedPartyPolicyHash := .ofByte 8
  settlementPolicy := ⟨1, 1, 2, 1, 1, 10, .ofByte 8⟩

def sampleSignature (agent : UInt8) (height : U64) : BilateralSignatureEntry :=
  ⟨.ofByte agent, .ofByte agent, 4, 1, 1, height, 0, List.replicate 64 0⟩

/-- The receipt for the period of one block. -/
def sampleReceipt (sequence : U64) (prior : Option Hash) (amounts totals : List U128)
    (charge : U128) : ConsumptionReceipt where
  body := ⟨1, sampleContext, .ofByte 1, .ofByte 2, .ofByte 3, .ofByte 3, 1, .ofByte 3, [1], 1,
    sequence, sequence, sequence, amounts.map fun amount => ⟨1, [1], [1], 1, amount, 1, .ofByte 1⟩,
    prior, totals.map fun total => ⟨1, [1], [1], 1, total, 1, .ofByte 9⟩, .ofByte 9, charge,
    .ofByte 7, .ofByte 8⟩
  providerSignature := sampleSignature 1 sequence
  consumerSignature := sampleSignature 2 sequence

def sampleRollup (height : U64) (count : Nat) (totals : List U128) (charge : U128) :
    ConsumptionRollup where
  body := ⟨1, sampleContext, .ofByte 1, .ofByte 2, .ofByte 3, .ofByte 3, 1, .ofByte 3, [1], 1, 1,
    BitVec.ofNat 64 count, List.replicate count (.ofByte 9), BitVec.ofNat 32 count, .ofByte 9,
    totals.map fun total => ⟨1, [1], [1], 1, total, 1, .ofByte 9⟩, charge, .ofByte 7, .ofByte 3,
    .ofByte 9, .ofByte 8⟩
  providerSignature := sampleSignature 1 height
  consumerSignature := sampleSignature 2 height

/-- The receipts of consecutive blocks and the rollup of all of them. -/
def rolledUp (receipts : List ConsumptionReceipt) (totals : List U128) (charge : U128) :
    List (U64 × Command) :=
  let height := BitVec.ofNat 64 (receipts.length + 1)
  receipts.map (fun receipt => (receipt.body.periodEndHeight, .admitReceipt receipt)) ++
    [(height, .admitRollup (sampleRollup height receipts.length totals charge) receipts)]

/-- Two receipts for 12 and 3 units, their rollup, and the settlement after its challenge window. -/
def sampleSteps : List (U64 × Command) :=
  rolledUp [sampleReceipt 1 none [12] [12] 24, sampleReceipt 2 (some (.ofByte 9)) [3] [15] 30]
      [15] 30 ++
    [(6, .settle ⟨1, sampleContext, .ofByte 3, .ofByte 3, 1, .ofByte 3, 1, 1, 0, .ofByte 9⟩)]

theorem sampleTrust_ok : validateTrustBundle sampleCrypto sampleTrust = .ok () := by decide +kernel

/-- The provider receives 27 of the charge of 30, the protocol 3 and the consumer the rest. -/
theorem sampleSteps_run : ((run sampleCrypto sampleTrust (initialState sampleTrust) sampleSteps).map
    fun s => s.accounts.map (·.balance)) = .ok [27, 80, 3] := by decide +kernel

theorem sample_exactBilling : ∃ s, run sampleCrypto sampleTrust (initialState sampleTrust)
    sampleSteps = .ok s ∧ ExactBilling sampleTrust sampleSteps s := by
  obtain ⟨s, h, -⟩ := map_eq_ok.mp sampleSteps_run
  exact ⟨s, h, run_exactBilling sampleTrust_ok h⟩

/-! ## The history of a state -/

/-- The commands are the receipts, the rollup and the settlement of the state, in this order. -/
def History (commands : List Command) (s : KernelState) : Prop :=
  ∃ (supplied : List ConsumptionReceipt) (operation : Option SettlementOperationBody),
    commands = s.receipts.map (.admitReceipt ·.receipt) ++
      s.rollup.toList.map (.admitRollup ·.rollup supplied) ++ operation.toList.map .settle ∧
    operation.isSome = s.settlement.isSome ∧ (s.rollup = none → s.settlement = none)

theorem History.step {commands : List Command} {s t : KernelState} {height : U64}
    {command : Command} (h : History commands s) (hstep : Step crypto trust s height command t) :
    History (commands ++ [command]) t := by
  obtain ⟨supplied, operation, rfl, hoperation, -⟩ := h
  cases hstep with
  | receipt hrollup hsettlement hcontinues =>
    refine ⟨supplied, none, ?_⟩
    simp_all
  | @rollup _ _ rollup receipts last assigned id hrollup hsettlement _ hassigned =>
    refine ⟨receipts, none, ?_⟩
    have hcommands := congrArg (List.map Command.admitReceipt) hassigned
    simp only [List.map_map, Function.comp_def] at hcommands
    simp_all
  | @settle _ _ operation' rollup rollup' _ _ _ settlement hrollup hsettles hreceipts hrollup'
      hsame _ _ _ hsettlement =>
    refine ⟨supplied, some operation', ?_⟩
    have hunsettled := hsettles.unsettled
    simp_all

theorem Chain.length_le (h : Chain crypto trust bodies) : bodies.length ≤ 1024 := by
  cases h with
  | nil => exact Nat.zero_le _
  | snoc _ hnext => exact List.length_append ▸ hnext.room

/-- An accepted run is at most 1024 receipts, then at most one rollup and then at most one
settlement, and the state keeps the receipts and the rollup as they were given. -/
theorem run_history {steps : List (U64 × Command)} {s : KernelState}
    (h : run crypto trust (initialState trust) steps = .ok s) :
    History (steps.map (·.2)) s ∧ s.receipts.length ≤ 1024 := by
  have hinitial : History (([] : List (U64 × Command)).map (·.2)) (initialState trust) :=
    ⟨[], none, rfl, rfl, fun _ => rfl⟩
  constructor
  · exact run_induct (P := fun done s => History (done.map (·.2)) s)
      (fun _ _ _ _ hs hstep => by simpa using hs.step hstep) hinitial h
  · simpa [KernelState.bodies] using (Coherent.run h).chain.length_le

theorem sample_history :
    ∃ s, run sampleCrypto sampleTrust (initialState sampleTrust) sampleSteps = .ok s ∧
    History (sampleSteps.map (·.2)) s := by
  obtain ⟨s, h, -⟩ := map_eq_ok.mp sampleSteps_run
  exact ⟨s, h, (run_history h).1⟩

end Trillionnium.Settlement
