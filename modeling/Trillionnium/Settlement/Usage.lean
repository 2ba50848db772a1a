import Trillionnium.Settlement.Billing

/-!
# Usage totals

A receipt adds its usage to what a map keeps of the prior receipt's totals. The map has one entry
for a resource, so the totals of a chain are exact as long as no receipt but the last lists a
resource twice.
-/

namespace Trillionnium.Settlement

open Lib Pon

variable {crypto : Crypto} {trust : TrustBundle}

/-! ## Sums -/

def usageSum (usage : List ResourceUsage) (key : ResourceKey) : Nat :=
  sumAt ResourceUsage.key (·.amount.toNat) usage key

def chainUsage (bodies : List ConsumptionReceiptBody) (key : ResourceKey) : Nat :=
  (bodies.map fun body => usageSum body.usage key).sum

def totalSum (totals : List CumulativeResourceUsage) (key : ResourceKey) : Nat :=
  sumAt CumulativeResourceUsage.key (·.totalAmount.toNat) totals key

/-- What the map of the prior receipt has for a resource. -/
def priorTotal (map : PriorMap) (key : ResourceKey) : Nat :=
  (map.get key).elim 0 fun reached => reached.1.toNat

theorem usageSum_usageTotals :
    usageSum (usageTotals totals) key = totalSum totals key := sumAt_map

/-! ## One receipt -/

theorem accumulate_spec (h : accumulate crypto entry prior = .ok output) :
    output.key = entry.key ∧ output.totalAmount.toNat = prior.1.toNat + entry.amount.toNat := by
  simp only [accumulate, bind_eq_ok, checkedAdd_eq_ok, pure_eq_ok] at h
  obtain ⟨total, htotal, _, -, rfl⟩ := h
  exact ⟨rfl, htotal⟩

variable {usage : List ResourceUsage} {outputs : List CumulativeResourceUsage} {map left : PriorMap}

/-- The outputs are about the resources of the usage, and they carry its amounts and what the map
gave up. -/
theorem accumulateAll_spec (h : accumulateAll crypto map usage = .ok (left, outputs)) :
    outputs.map (·.key) = usage.map (·.key) ∧
      ∀ key, totalSum outputs key + priorTotal left key =
        usageSum usage key + priorTotal map key := by
  induction usage generalizing map outputs with
  | nil =>
    cases h
    exact ⟨rfl, fun _ => rfl⟩
  | cons entry rest ih =>
    simp only [accumulateAll, bind_eq_ok, pure_eq_ok, Prod.mk.injEq] at h
    obtain ⟨output, houtput, ⟨_, outputs⟩, hrest, rfl, rfl⟩ := h
    obtain ⟨hkey, htotal⟩ := accumulate_spec houtput
    obtain ⟨hkeys, hsums⟩ := ih hrest
    refine ⟨by rw [List.map_cons, List.map_cons, hkey, hkeys], fun key => ?_⟩
    have hsum := hsums key
    rw [totalSum, sumAt_cons, usageSum, sumAt_cons, hkey]
    simp only [totalSum, usageSum, priorTotal, OrdMap.get_erase] at hsum ⊢
    by_cases h : entry.key = key
    · subst h
      simp only [if_true, Option.elim_none] at hsum ⊢
      have hprior : ((map.get entry.key).getD (0, Hash.zero)).1.toNat =
          (map.get entry.key).elim 0 fun reached => reached.1.toNat := by
        cases map.get entry.key <;> rfl
      omega
    · simp only [h, if_false] at hsum ⊢
      omega

theorem accumulateAll_pos (hpos : ∀ entry ∈ usage, 0 < entry.amount.toNat)
    (h : accumulateAll crypto map usage = .ok (left, outputs)) :
    ∀ output ∈ outputs, 0 < output.totalAmount.toNat := by
  induction usage generalizing map outputs with
  | nil =>
    cases h
    simp
  | cons entry rest ih =>
    simp only [accumulateAll, bind_eq_ok, pure_eq_ok, Prod.mk.injEq] at h
    obtain ⟨output, houtput, ⟨_, outputs⟩, hrest, rfl, rfl⟩ := h
    obtain ⟨hentry, hpos⟩ := List.forall_mem_cons.mp hpos
    refine List.forall_mem_cons.mpr ⟨?_, ih hpos hrest⟩
    have := (accumulate_spec houtput).2
    omega

theorem validateUsage_pos (h : validateUsage usage = .ok ()) :
    ∀ entry ∈ usage, 0 < entry.amount.toNat := by
  intro entry hentry
  simp only [validateUsage, bind_eq_ok, forM_eq_ok] at h
  obtain ⟨_, -, _, -, hentries⟩ := h
  have hentry := hentries entry hentry
  simp only [validateUsageEntry, require_eq_ok] at hentry
  obtain ⟨-, -, -, -, hamount⟩ := hentry
  rw [Nat.pos_iff_ne_zero]
  exact fun hzero => hamount (BitVec.eq_of_toNat_eq hzero)

/-- The totals of an admitted receipt: its resources, and its usage on top of what the map has. -/
theorem deriveCumulativeUsage_spec (h : deriveCumulativeUsage crypto prior usage = .ok totals)
    (husage : validateUsage usage = .ok ()) :
    ((totals.map (·.key)).Nodup ↔ (usage.map (·.key)).Nodup) ∧
      (∀ total ∈ totals, 0 < total.totalAmount.toNat) ∧
      ∀ key, totalSum totals key = usageSum usage key + priorTotal (priorMap prior) key := by
  simp only [deriveCumulativeUsage, bind_eq_ok, require_eq_ok, pure_eq_ok] at h
  obtain ⟨⟨_, outputs⟩, houtputs, _, rfl, rfl⟩ := h
  have hperm := List.perm_insertionSort
    (fun a b : CumulativeResourceUsage => a.orderKey ≤ b.orderKey) outputs
  obtain ⟨hkeys, hsums⟩ := accumulateAll_spec houtputs
  refine ⟨?_, ?_, fun key => ?_⟩
  · rw [(hperm.map _).nodup_iff, hkeys]
  · exact fun total htotal => accumulateAll_pos (validateUsage_pos husage) houtputs total
      (hperm.mem_iff.mp htotal)
  · rw [totalSum, sumAt_perm hperm, ← hsums key]
    rfl

/-! ## The chain -/

variable {prior : ConsumptionReceiptState}

/-- The map keeps at most the totals of the prior receipt, and all of them exactly when these name
no resource twice. -/
theorem priorTotal_le (key : ResourceKey) :
    priorTotal (priorMap (some prior)) key ≤ totalSum prior.receipt.body.cumulativeUsage key :=
  OrdMap.weight_ofList_le (fun entry : CumulativeResourceUsage =>
    (entry.totalAmount, entry.accumulatorCommitment)) fun reached => reached.1.toNat

theorem priorTotal_eq_iff
    (hpos : ∀ total ∈ prior.receipt.body.cumulativeUsage, 0 < total.totalAmount.toNat) :
    (∀ key, priorTotal (priorMap (some prior)) key =
      totalSum prior.receipt.body.cumulativeUsage key) ↔
      (prior.receipt.body.cumulativeUsage.map (·.key)).Nodup :=
  OrdMap.weight_ofList_eq_iff (fun entry : CumulativeResourceUsage =>
    (entry.totalAmount, entry.accumulatorCommitment)) (fun reached => reached.1.toNat) hpos

/-- Two families of lower bounds add up to the same sums exactly when each is attained. -/
theorem forall_add_eq_iff {ι : Type} {a b c d : ι → Nat} (hb : ∀ i, b i ≤ c i)
    (hc : ∀ i, c i ≤ d i) :
    (∀ i, a i + b i = a i + d i) ↔ (∀ i, b i = c i) ∧ ∀ i, c i = d i := by
  refine ⟨fun h => ⟨fun i => ?_, fun i => ?_⟩, fun h i => by rw [h.1, h.2]⟩ <;>
    · have := h i
      have := hb i
      have := hc i
      omega

variable {bodies : List ConsumptionReceiptBody}

theorem chainUsage_snoc :
    chainUsage (bodies ++ [body]) key = usageSum body.usage key + chainUsage bodies key := by
  simp [chainUsage, Nat.add_comm]

theorem Chain.totals (h : Chain crypto trust bodies)
    {last : ConsumptionReceiptBody} (hlast : bodies.getLast? = some last) :
    ((last.cumulativeUsage.map (·.key)).Nodup ↔ (last.usage.map (·.key)).Nodup) ∧
      (∀ total ∈ last.cumulativeUsage, 0 < total.totalAmount.toNat) ∧
      (∀ key, totalSum last.cumulativeUsage key ≤ chainUsage bodies key) ∧
      ((∀ key, totalSum last.cumulativeUsage key = chainUsage bodies key) ↔
        ∀ body ∈ bodies.dropLast, (body.usage.map (·.key)).Nodup) := by
  induction h generalizing last with
  | nil => simp at hlast
  | @snoc bodies body hchain hnext ih =>
    rw [List.getLast?_concat] at hlast
    cases hlast
    obtain ⟨prior, hprior, hderived⟩ := hnext.cumulative
    obtain ⟨hkeys, hpos, hsums⟩ := deriveCumulativeUsage_spec hderived hnext.usage
    refine ⟨hkeys, hpos, ?_⟩
    simp only [hsums, chainUsage_snoc, List.dropLast_concat]
    cases prior with
    | none =>
      rw [eq_comm, Option.map_none, List.getLast?_eq_none_iff] at hprior
      subst hprior
      exact ⟨fun _ => le_rfl, by simp [chainUsage, priorTotal, priorMap]⟩
    | some prior =>
      obtain ⟨hkeys', hpos', hle, hexact⟩ := ih hprior.symm
      refine ⟨fun key => Nat.add_le_add_left ((priorTotal_le key).trans (hle key)) _, ?_⟩
      -- the map loses nothing and the chain before was exact
      rw [forall_add_eq_iff priorTotal_le hle, priorTotal_eq_iff hpos', hkeys', hexact]
      conv_rhs => rw [← List.dropLast_append_getLast? _ hprior.symm]
      rw [List.forall_mem_append, List.forall_mem_singleton, and_comm]

/-- The totals of an admitted rollup are the usage of all receipts exactly when no receipt but the
last lists a resource twice: the map of the next receipt keeps one of two entries. -/
theorem rollup_usage_exact_iff {steps : List (U64 × Command)} {s : KernelState}
    {rollup : ConsumptionRollupState}
    (h : run crypto trust (initialState trust) steps = .ok s) (hrollup : s.rollup = some rollup) :
    (∀ key, usageSum rollup.rollup.body.usageTotals key = chainUsage s.bodies key) ↔
      ∀ body ∈ s.bodies.dropLast, (body.usage.map (·.key)).Nodup := by
  have hs := Coherent.run h
  obtain ⟨last, hlast, htotals, -⟩ := hs.rolled rollup hrollup
  simp only [htotals, usageSum_usageTotals]
  exact (hs.chain.totals hlast).2.2.2

def sampleKey : ResourceKey := toLex (1, toLex ([1], toLex ([1], toLex (1, 1))))

/-- Five and seven units of one resource in the first receipt, three more in the second. -/
def repeatedSteps : List (U64 × Command) :=
  rolledUp [sampleReceipt 1 none [5, 7] [5, 7] 24, sampleReceipt 2 (some (.ofByte 9)) [3] [10] 30]
    [10] 30

/-- The rollup is admitted with ten of the fifteen units, and charges for all of them. -/
theorem repeatedSteps_lose_usage : validateTrustBundle sampleCrypto sampleTrust = .ok () ∧
    ((run sampleCrypto sampleTrust (initialState sampleTrust) repeatedSteps).map fun s =>
      (s.rollup.map fun rollup => (usageSum rollup.rollup.body.usageTotals sampleKey,
        rollup.rollup.body.totalCharge), chainUsage s.bodies sampleKey)) =
      .ok (some (10, 30), 15) := by decide +kernel

theorem sampleSteps_rolled :
    ((run sampleCrypto sampleTrust (initialState sampleTrust) sampleSteps).map
    fun s => (s.rollup.isSome, s.bodies.dropLast.all fun body => (body.usage.map (·.key)).Nodup)) =
      .ok (true, true) := by decide +kernel

theorem sample_rollup_usage_exact : ∃ s rollup,
    run sampleCrypto sampleTrust (initialState sampleTrust) sampleSteps = .ok s ∧
    s.rollup = some rollup ∧
    ∀ key, usageSum rollup.rollup.body.usageTotals key = chainUsage s.bodies key := by
  obtain ⟨s, hs, hrolled⟩ := map_eq_ok.mp sampleSteps_rolled
  obtain ⟨hrollup, hnodup⟩ := Prod.mk.inj hrolled
  obtain ⟨rollup, hrollup⟩ := Option.isSome_iff_exists.mp hrollup
  refine ⟨s, rollup, hs, hrollup, (rollup_usage_exact_iff hs hrollup).mpr ?_⟩
  simpa using hnodup

end Trillionnium.Settlement
