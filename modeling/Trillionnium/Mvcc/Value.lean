import Trillionnium.Mvcc.Schedule

/-!
# Value conservation

What each round of a block changes (`Round`), and that over a block the objects gain exactly what
successful additions add: fees leave their payers transaction by transaction, wait in the pending
fees, and reach the destinations at the end of the block.
-/

namespace Trillionnium.Mvcc

open Lib Pon

variable {sha256 : Bytes → Hash} {genesis : Genesis} {parent state state' : ObjectMap}
  {tx : Transaction} {transactions : List Transaction} {fee : U128}

/-! ## Sums -/

def ObjectMap.total (objects : ObjectMap) : Nat := OrdMap.sum objects fun _ o => o.value.toNat

/-- What a list of deltas moves. -/
def deltaTotal (deltas : List FeeDelta) : Nat := (deltas.map fun d => d.amount.toNat).sum

def PendingFees.total (pending : PendingFees) : Nat := OrdMap.sum pending fun _ a => a.toNat

/-- The amount a transaction adds to the objects: that of an addition that succeeds. -/
def minted (tx : Transaction) (status : ReceiptStatus) : Nat :=
  match tx.program, status with
  | .add _ amount, .success => amount.toNat
  | _, _ => 0

/-- The objects of the program gain what is minted. -/
theorem AppEffect.total (h : AppEffect state tx app) (hd : requireDistinct tx = .ok ()) :
    app.get tx.feePayer = none ∧ app.sum (fun _ o => o.value.toNat) =
        app.sum (fun id _ => (state.get id).elim 0 fun o => o.value.toNat) +
          minted tx (disposition tx).1 := by
  cases h with
  | idle hstatus =>
    refine ⟨rfl, ?_⟩
    have hminted : minted tx (disposition tx).1 = 0 := by
      unfold minted
      split
      · rename_i heq
        exact absurd heq hstatus
      · rfl
    rw [hminted]
    rfl
  | @add target amount o o' hstatus hprogram ho hadvanced =>
    have htarget : target ≠ tx.feePayer := by simpa [requireDistinct, hprogram] using hd
    refine ⟨by simp [OrdMap.get_insert, htarget], ?_⟩
    rw [OrdMap.sum_insert_new _ rfl, OrdMap.sum_insert_new _ rfl, hadvanced.value, ho]
    simp [minted, hprogram, hstatus, OrdMap.sum, Assoc.sum, OrdMap.empty]
  | @transfer source destination amount o o' d d' hstatus hprogram ho hd' hle hadv hadv' =>
    have hne : source ≠ destination ∧ source ≠ tx.feePayer ∧ destination ≠ tx.feePayer := by
      simpa [requireDistinct, hprogram] using hd
    refine ⟨by simp [OrdMap.get_insert, hne.2.1, hne.2.2], ?_⟩
    have hnew : ((OrdMap.empty : ObjectMap).insert source o').get destination = none := by
      simp [OrdMap.get_insert, hne.1]
    rw [OrdMap.sum_insert_new _ hnew, OrdMap.sum_insert_new _ hnew, OrdMap.sum_insert_new _ rfl,
      OrdMap.sum_insert_new _ rfl, hadv.value, hadv'.value, ho, hd']
    simp [minted, hprogram, OrdMap.sum, Assoc.sum, OrdMap.empty]
    omega

/-- A transaction takes the fee from its payer and adds what it mints. -/
theorem total_extend (hd : requireDistinct tx = .ok ())
    (h : successorsOf state tx fee = .ok successors) :
    ObjectMap.total (state.extend successors) + fee.toNat =
      ObjectMap.total state + minted tx (disposition tx).1 := by
  obtain ⟨payer, payer', app, hpayer, hle, hadvanced, happ, rfl⟩ := successorsOf_ok h
  obtain ⟨hnew, happ⟩ := happ.total hd
  have hsum := OrdMap.sum_extend (fun _ o => o.value.toNat) state (app.insert tx.feePayer payer')
  rw [OrdMap.sum_insert_new _ hnew, OrdMap.sum_insert_new _ hnew, hadvanced.value, hpayer,
    happ] at hsum
  simp only [Option.elim_some] at hsum
  unfold ObjectMap.total
  omega

/-! ## Splitting a fee -/

theorem foldlM_checkedAdd {α : Type} {f : α → U128} {l : List α}
    (h : l.foldlM (fun sum a => checkedAdd sum (f a) e) start = .ok total) :
    total.toNat = start.toNat + (l.map fun a => (f a).toNat).sum := by
  induction l generalizing start with
  | nil =>
    cases h
    simp
  | cons a l ih =>
    simp only [List.foldlM_cons, bind_eq_ok, checkedAdd_eq_ok] at h
    obtain ⟨next, hnext, hrest⟩ := h
    rw [ih hrest, hnext, List.map_cons, List.sum_cons, Nat.add_assoc]

/-- Where a delta comes from and goes to. -/
def FeeDelta.route (d : FeeDelta) : TypedObjectId × TypedObjectId := (d.source, d.destination)

theorem addRemainder_route {destination : TypedObjectId}
    (h : addRemainder destination remainder deltas = .ok output) :
    output.map FeeDelta.route = deltas.map FeeDelta.route := by
  induction deltas generalizing output with
  | nil => cases h
  | cons delta deltas ih =>
    unfold addRemainder at h
    split at h
    · simp only [bind_eq_ok, pure_eq_ok] at h
      obtain ⟨amount, -, rfl⟩ := h
      rfl
    · simp only [bind_eq_ok, pure_eq_ok] at h
      obtain ⟨rest, hrest, rfl⟩ := h
      rw [List.map_cons, List.map_cons, ih hrest]

theorem feeShares_route {source : TypedObjectId} {splits : List FeeDestinationSplit}
    (h : splits.foldlM (fun (acc : List FeeDelta × U128) split => do
      let share ← feeShare source fee split
      let assigned ← checkedAdd acc.2 share.amount (overflow "fee split sum overflow")
      pure (acc.1 ++ [share], assigned)) acc = .ok acc') :
    acc'.1.map FeeDelta.route = acc.1.map FeeDelta.route ++
      splits.map fun split => (source, split.destination) := by
  induction splits generalizing acc with
  | nil =>
    cases h
    simp
  | cons split splits ih =>
    simp only [List.foldlM_cons, feeShare, bind_eq_ok, pure_eq_ok] at h
    obtain ⟨_, ⟨share, ⟨product, -, denominator, -, rfl⟩, assigned, -, rfl⟩, hrest⟩ := h
    rw [ih hrest]
    simp [FeeDelta.route]

variable {deltas : List FeeDelta}

/-- The deltas of a fee add up to it and go to the destinations of the genesis. -/
theorem splitFee_ok {source : TypedObjectId}
    (h : splitFee genesis source fee = .ok deltas) : deltaTotal deltas = fee.toNat ∧
      deltas.map FeeDelta.route = genesis.destinations.map fun d => (source, d) := by
  simp only [splitFee, bind_eq_ok, pure_eq_ok, require_eq_ok] at h
  obtain ⟨⟨shares, assigned⟩, hshares, remainder, -, output, houtput, total, htotal, -, rfl,
    rfl⟩ := h
  refine ⟨by simpa [deltaTotal] using (foldlM_checkedAdd htotal).symm, ?_⟩
  rw [addRemainder_route houtput, feeShares_route hshares]
  simp [Genesis.destinations]

/-! ## Pending fees -/

section
variable {K α : Type} [LinearOrder K] {f : α → K} {g : α → U128} {m m' : OrdMap K U128} {l : List α}
  {add : OrdMap K U128 → α → Outcome (OrdMap K U128)}

/-- Amounts that are added one after another to what stands under their keys. -/
theorem foldlM_addAt (hadd : ∀ {m a m'}, add m a = .ok m' → ∃ sum : U128,
      sum.toNat = ((m.get (f a)).getD 0).toNat + (g a).toNat ∧ m.insert (f a) sum = m')
    (h : l.foldlM add m = .ok m') :
    m'.sum (fun _ a => a.toNat) = m.sum (fun _ a => a.toNat) + (l.map fun a => (g a).toNat).sum ∧
      ∀ k, m'.get k ≠ none → m.get k ≠ none ∨ k ∈ l.map f := by
  induction l generalizing m with
  | nil =>
    cases h
    exact ⟨rfl, fun k hk => .inl hk⟩
  | cons a l ih =>
    rw [List.foldlM_cons, bind_eq_ok] at h
    obtain ⟨next, hnext, hrest⟩ := h
    obtain ⟨sum, hsum, rfl⟩ := hadd hnext
    obtain ⟨htotal, hkeys⟩ := ih hrest
    refine ⟨?_, fun k hk => ?_⟩
    · have hinsert := m.sum_insert (k := f a) (v := sum) fun _ a => a.toNat
      rw [htotal, List.map_cons, List.sum_cons]
      cases hget : m.get (f a) <;> simp [hget] at hinsert hsum <;> omega
    · rw [List.map_cons, List.mem_cons]
      rcases hkeys k hk with hk | hk
      · rw [OrdMap.get_insert] at hk
        split at hk
        · next heq => exact .inr (.inl heq.symm)
        · exact .inl hk
      · exact .inr (.inr hk)

end

theorem foldlM_addPending (h : deltas.foldlM addPending pending = .ok pending') :
    pending'.total = pending.total + deltaTotal deltas ∧
      ∀ key, pending'.get key ≠ none → pending.get key ≠ none ∨ key ∈ deltas.map fun d =>
        toLex d.route :=
  foldlM_addAt (fun hadd => by
    simpa only [addPending, bind_eq_ok, pure_eq_ok, checkedAdd_eq_ok, FeeDelta.route] using hadd) h

/-! ## One round -/

/-- What a round of the loop changes. -/
structure Round (genesis : Genesis) (tx : Transaction) (p p' : Progress)
    (receipt : TransactionReceipt) : Prop where
  receipts : p'.receipts = p.receipts ++ [receipt]
  status : receipt.status = (disposition tx).1
  refund : receipt.feeCharged.toNat + receipt.refundAmount.toNat = tx.maxFee.toNat
  objects : ∃ successors, successorsOf p.current tx receipt.feeCharged = .ok successors ∧
    p'.current = p.current.extend successors
  pending : p'.pendingFees.total = p.pendingFees.total + receipt.feeCharged.toNat
  destinations : ∀ key, p'.pendingFees.get key ≠ none →
    p.pendingFees.get key ≠ none ∨ (ofLex key).2 ∈ genesis.destinations

variable {p p' : Progress}

theorem executeOne_round (h : executeOne sha256 genesis p (tx, reads) = .ok p') :
    ∃ receipt, Round genesis tx p p' receipt := by
  simp only [executeOne, commitComputed, bind_eq_ok, pure_eq_ok] at h
  obtain ⟨current, -, computed, hcomputed, pending, hpending, root, -, rfl⟩ := h
  have hsuccessors := computeTransaction_successors hcomputed
  simp only [computeTransaction, bind_eq_ok, pure_eq_ok, checkedSub_eq_ok] at hcomputed
  obtain ⟨usage, -, fee, -, -, -, successors, -, writes, -, deltas, hdeltas, _, -, _, -, _,
    -, refund, hrefund, rfl⟩ := hcomputed
  obtain ⟨htotal, hroutes⟩ := splitFee_ok hdeltas
  obtain ⟨hpending, hkeys⟩ := foldlM_addPending hpending
  refine ⟨_, rfl, rfl, ?_, ⟨successors, hsuccessors, rfl⟩, ?_, fun key hkey => ?_⟩
  · show fee.toNat + refund.toNat = _
    omega
  · show PendingFees.total pending = _
    rw [hpending, htotal]
  · rcases hkeys key hkey with hkey | hkey
    · exact .inl hkey
    · right
      obtain ⟨delta, hdelta, rfl⟩ := List.mem_map.mp hkey
      have hroute := List.mem_map_of_mem (f := FeeDelta.route) hdelta
      rw [hroutes] at hroute
      obtain ⟨d, hd, heq⟩ := List.mem_map.mp hroute
      rw [ofLex_toLex, ← heq]
      exact hd

/-- A transaction that does not succeed changes its fee payer and no other object. -/
theorem Round.unsuccessful (h : Round genesis tx p p' receipt) (hs : receipt.status ≠ .success) :
    ∃ payer payer', p.current.get tx.feePayer = some payer ∧
      receipt.feeCharged.toNat ≤ payer.value.toNat ∧
      Advanced payer (payer.value.toNat - receipt.feeCharged.toNat) payer' ∧
      ∀ id, p'.current.get id = if tx.feePayer = id then some payer' else p.current.get id := by
  obtain ⟨successors, hsuccessors, hcurrent⟩ := h.objects
  obtain ⟨payer, payer', app, hpayer, hle, hadvanced, happ, rfl⟩ := successorsOf_ok hsuccessors
  rw [h.status] at hs
  refine ⟨payer, payer', hpayer, hle, hadvanced, fun id => ?_⟩
  cases happ with
  | idle =>
    rw [hcurrent, OrdMap.get_extend, OrdMap.get_insert]
    split <;> simp
  | add hstatus => exact absurd hstatus hs
  | transfer hstatus => exact absurd hstatus hs

variable {l : List (Transaction × List ReadSetEntry)}

/-- The transactions of the loop with their receipts: what is charged and what is minted. -/
theorem foldlM_rounds (hv : ∀ x ∈ l, requireDistinct x.1 = .ok ())
    (h : l.foldlM (executeOne sha256 genesis) p = .ok p') :
    ∃ receipts, p'.receipts = p.receipts ++ receipts ∧ receipts.length = l.length ∧
      ObjectMap.total p'.current + (receipts.map fun r => r.feeCharged.toNat).sum =
        ObjectMap.total p.current + (((l.map Prod.fst).zip receipts).map fun x =>
          minted x.1 x.2.status).sum ∧
      p'.pendingFees.total = p.pendingFees.total + (receipts.map fun r => r.feeCharged.toNat).sum ∧
      ∀ key, p'.pendingFees.get key ≠ none →
        p.pendingFees.get key ≠ none ∨ (ofLex key).2 ∈ genesis.destinations := by
  induction l generalizing p with
  | nil =>
    cases h
    exact ⟨[], by simp, rfl, rfl, rfl, fun key hkey => .inl hkey⟩
  | cons x l ih =>
    obtain ⟨hx, hl⟩ := List.forall_mem_cons.mp hv
    simp only [List.foldlM_cons, bind_eq_ok] at h
    obtain ⟨next, hnext, hrest⟩ := h
    obtain ⟨receipt, hround⟩ := executeOne_round hnext
    obtain ⟨receipts, hreceipts, hlen, htotal, hpending, hkeys⟩ := ih hl hrest
    obtain ⟨successors, hsuccessors, hcurrent⟩ := hround.objects
    have hfirst := total_extend hx hsuccessors
    refine ⟨receipt :: receipts, ?_, by simp [hlen], ?_, ?_, fun key hkey => ?_⟩
    · rw [hreceipts, hround.receipts, List.append_assoc, List.singleton_append]
    · rw [hcurrent] at htotal
      simp only [List.map_cons, List.sum_cons, List.zip_cons_cons, hround.status]
      omega
    · simp only [hpending, hround.pending, List.map_cons, List.sum_cons, Nat.add_assoc]
    · rcases hkeys key hkey with hkey | hkey
      · exact hround.destinations key hkey
      · exact .inr hkey

/-! ## Destination credits -/

variable {credits : List DestinationFeeCredit}

theorem reduceDestinationCredits_ok (h : reduceDestinationCredits deltas = .ok credits) :
    (credits.map fun c => c.amount.toNat).sum = deltaTotal deltas ∧
      (∀ c ∈ credits, ∃ d ∈ deltas, d.destination = c.destination) ∧
      (credits.map DestinationFeeCredit.destination).Nodup := by
  simp only [reduceDestinationCredits, bind_eq_ok, pure_eq_ok] at h
  obtain ⟨map, hmap, rfl⟩ := h
  obtain ⟨htotal, hkeys⟩ := foldlM_addAt (f := FeeDelta.destination) (g := FeeDelta.amount)
    (fun hadd => by simpa only [addCredit, bind_eq_ok, pure_eq_ok, checkedAdd_eq_ok] using hadd)
      hmap
  refine ⟨?_, fun c hc => ?_, ?_⟩
  · rw [List.map_map]
    simpa [deltaTotal, OrdMap.sum, Assoc.sum, EmptyCollection.emptyCollection, OrdMap.empty,
      Function.comp_def] using htotal
  · obtain ⟨e, he, rfl⟩ := List.mem_map.mp hc
    have hget : map.get e.1 ≠ none := by simp [OrdMap.mem_entries.mp (show (e.1, e.2) ∈ _ from he)]
    exact List.mem_map.mp ((hkeys e.1 hget).resolve_left (by simp))
  · rw [List.map_map]
    exact map.nodup_keys

/-- Crediting adds the credits to their destinations and leaves the other objects. -/
theorem applyDestinationCredits_ok (hn : (credits.map DestinationFeeCredit.destination).Nodup)
    (h : applyDestinationCredits state credits = .ok state') :
    ObjectMap.total state' = ObjectMap.total state + (credits.map fun c => c.amount.toNat).sum ∧
      (∀ c ∈ credits, ∃ o o', state.get c.destination = some o ∧
        state'.get c.destination = some o' ∧
        Advanced o (o.value.toNat + c.amount.toNat) o') ∧
      ∀ id, id ∉ credits.map DestinationFeeCredit.destination → state'.get id = state.get id := by
  induction credits generalizing state with
  | nil =>
    cases h
    exact ⟨by simp, by simp, fun _ _ => rfl⟩
  | cons c credits ih =>
    obtain ⟨hc, hn⟩ := List.nodup_cons.mp hn
    simp only [applyDestinationCredits, List.foldlM_cons, applyDestinationCredit, bind_eq_ok,
      pure_eq_ok, okOr_eq_ok, checkedAdd_eq_ok] at h
    obtain ⟨_, ⟨o, ho, value, hvalue, version, hversion, rfl⟩, hrest⟩ := h
    obtain ⟨htotal, hcredits, hothers⟩ := ih hn hrest
    have hadvanced : Advanced o (o.value.toNat + c.amount.toNat)
      { o with value := value, version := version } := .mk_of hvalue hversion
    refine ⟨?_, List.forall_mem_cons.mpr ⟨⟨o, _, ho, ?_, hadvanced⟩, fun c' hc' => ?_⟩,
      fun id hid => ?_⟩
    · have hsum := OrdMap.sum_insert (m := state) (k := c.destination)
        (v := { o with value := value, version := version }) fun _ o => o.value.toNat
      simp only [ho, Option.elim_some, hvalue] at hsum
      rw [htotal, List.map_cons, List.sum_cons]
      unfold ObjectMap.total
      omega
    · rw [hothers _ hc, OrdMap.get_insert_self]
    · obtain ⟨old, new, hold, hnew, hadv⟩ := hcredits c' hc'
      have hne : c.destination ≠ c'.destination := fun heq =>
        hc (heq ▸ List.mem_map_of_mem hc')
      exact ⟨old, new, by rwa [OrdMap.get_insert_ne hne] at hold, hnew, hadv⟩
    · rw [List.map_cons, List.mem_cons, not_or] at hid
      rw [hothers id hid.2, OrdMap.get_insert_ne (Ne.symm hid.1)]

/-! ## Blocks -/

/-- The loop of a block, stopped after `n` transactions. -/
def progressAfter (sha256 : Bytes → Hash) (genesis : Genesis) (parent : ObjectMap) (block : Block)
    (n : Nat) : Outcome Progress := do
  let reads ← block.transactions.mapM (readSet sha256 parent)
  ((block.transactions.zip reads).take n).foldlM (executeOne sha256 genesis) ⟨parent, ∅, []⟩

theorem deltaTotal_reducePendingFees : deltaTotal (reducePendingFees pending) = pending.total := by
  simp [deltaTotal, reducePendingFees, PendingFees.total, OrdMap.sum, Assoc.sum, Function.comp_def]

/-- The loop and the end of an executed block. -/
theorem executeBlock_ok (h : executeBlock sha256 genesis parent block = .ok (post, receipt)) :
    validateBlock sha256 genesis parent block = .ok () ∧ ∃ reads last,
      block.transactions.mapM (readSet sha256 parent) = .ok reads ∧
      (block.transactions.zip reads).foldlM (executeOne sha256 genesis) ⟨parent, ∅, []⟩ = .ok last ∧
      receipt.receipts = last.receipts ∧
      reduceDestinationCredits (reducePendingFees last.pendingFees) =
        .ok receipt.destinationCredits ∧
      applyDestinationCredits last.current receipt.destinationCredits = .ok post := by
  simp only [executeBlock, finishBlock, bind_eq_ok, pure_eq_ok, Prod.mk.injEq] at h
  obtain ⟨_, hv, _, -, reads, hreads, last, hlast, credits, hcredits, current, hcurrent, _, -,
    _, -, _, -, _, -, _, -, _, -, _, -, rfl, rfl⟩ := h
  exact ⟨hv, reads, last, hreads, hlast, rfl, hcredits, hcurrent⟩

/-- A run of the loop passes through the round of each of its transactions. -/
theorem foldlM_round_at (hi : i < l.length) (hv : ∀ x ∈ l, requireDistinct x.1 = .ok ())
    (h : l.foldlM (executeOne sha256 genesis) p = .ok p') :
    ∃ before after receipt, (l.take i).foldlM (executeOne sha256 genesis) p = .ok before ∧
      (l.take (i + 1)).foldlM (executeOne sha256 genesis) p = .ok after ∧
      Round genesis l[i].1 before after receipt ∧ p'.receipts[p.receipts.length + i]? =
        some receipt := by
  have hsplit : l = l.take i ++ l[i] :: l.drop (i + 1) := by simp
  have htake : l.take (i + 1) = l.take i ++ [l[i]] := by simp
  rw [hsplit, List.foldlM_append, bind_eq_ok] at h
  obtain ⟨before, hbefore, h⟩ := h
  rw [List.foldlM_cons, bind_eq_ok] at h
  obtain ⟨after, hafter, hrest⟩ := h
  obtain ⟨receipt, hround⟩ := executeOne_round hafter
  have hmem : ∀ {x}, x ∈ l.take i → x ∈ l := List.mem_of_mem_take
  have hmem' : ∀ {x}, x ∈ l.drop (i + 1) → x ∈ l := List.mem_of_mem_drop
  obtain ⟨receipts, hreceipts, hlen, -⟩ := foldlM_rounds (fun x hx => hv x (hmem hx)) hbefore
  obtain ⟨others, hothers, -⟩ := foldlM_rounds (fun x hx => hv x (hmem' hx)) hrest
  refine ⟨before, after, receipt, hbefore, ?_, hround, ?_⟩
  · rw [htake, List.foldlM_append, hbefore, bind_of_ok rfl, List.foldlM_cons, hafter,
      bind_of_ok rfl]
    rfl
  · have hlen' : receipts.length = i := by simpa [hi.le] using hlen
    rw [hothers, hround.receipts, hreceipts]
    simp [hlen']

/-- A block changes the value of all objects by what its successful additions add. Transactions that
do not succeed change their fee payer only, the destinations are credited at the end with what the
receipts charge, and each receipt charges and refunds the maximal fee. -/
theorem executeBlock_conserves {block : Block} {post : ObjectMap} {receipt : BlockReceipt}
    (h : executeBlock sha256 genesis parent block = .ok (post, receipt)) :
    receipt.receipts.length = block.transactions.length ∧
    ObjectMap.total post = ObjectMap.total parent +
      ((block.transactions.zip receipt.receipts).map fun x => minted x.1 x.2.status).sum ∧
    (receipt.destinationCredits.map fun c => c.amount.toNat).sum =
      (receipt.receipts.map fun r => r.feeCharged.toNat).sum ∧
    (∀ (i : Nat) (tx : Transaction) (r : TransactionReceipt),
      block.transactions[i]? = some tx → receipt.receipts[i]? = some r →
      r.feeCharged.toNat + r.refundAmount.toNat = tx.maxFee.toNat ∧
      ∃ before after, progressAfter sha256 genesis parent block i = .ok before ∧
        progressAfter sha256 genesis parent block (i + 1) = .ok after ∧
        (r.status ≠ .success → ∃ payer payer', before.current.get tx.feePayer = some payer ∧
          r.feeCharged.toNat ≤ payer.value.toNat ∧
          Advanced payer (payer.value.toNat - r.feeCharged.toNat) payer' ∧
          ∀ id, after.current.get id =
            if tx.feePayer = id then some payer' else before.current.get id)) ∧
    ∃ last, progressAfter sha256 genesis parent block block.transactions.length = .ok last ∧
      (∀ c ∈ receipt.destinationCredits, c.destination ∈ genesis.destinations ∧
        ∃ o o', last.current.get c.destination = some o ∧ post.get c.destination = some o' ∧
          Advanced o (o.value.toNat + c.amount.toNat) o') ∧
      ∀ id, id ∉ genesis.destinations → post.get id = last.current.get id := by
  obtain ⟨hv, reads, last, hreads, hlast, hreceipts, hcredits, hpost⟩ := executeBlock_ok h
  have hlen : reads.length = block.transactions.length := (forall₂_of_mapM hreads).length_eq.symm
  have hziplen : (block.transactions.zip reads).length = block.transactions.length := by simp [hlen]
  have hdistinct : ∀ x ∈ block.transactions.zip reads, requireDistinct x.1 = .ok () := fun x hx =>
    (validateBlock_valid hv x.1 (List.of_mem_zip (show (x.1, x.2) ∈ _ from hx)).1).distinct
  obtain ⟨receipts, hrs, hrlen, htotal, hpending, hkeys⟩ := foldlM_rounds hdistinct hlast
  rw [hrs, List.nil_append] at hreceipts
  obtain ⟨hsum, hfrom, hnodup⟩ := reduceDestinationCredits_ok hcredits
  obtain ⟨hposttotal, hcredited, hothers⟩ := applyDestinationCredits_ok hnodup hpost
  have hdestinations : ∀ c ∈ receipt.destinationCredits, c.destination ∈ genesis.destinations := by
    intro c hc
    obtain ⟨d, hd, hdest⟩ := hfrom c hc
    obtain ⟨e, he, rfl⟩ := List.mem_map.mp hd
    have hget : last.pendingFees.get e.1 ≠ none := by
      simp [OrdMap.mem_entries.mp (show (e.1, e.2) ∈ _ from he)]
    exact hdest ▸ (hkeys e.1 hget).resolve_left (by simp)
  have hfees : (receipt.destinationCredits.map fun c => c.amount.toNat).sum =
      (receipt.receipts.map fun r => r.feeCharged.toNat).sum := by
    rw [hsum, deltaTotal_reducePendingFees, hpending, hreceipts]
    exact Nat.zero_add _
  refine ⟨by rw [hreceipts, hrlen, hziplen], ?_, hfees, ?_, last, ?_, ?_, ?_⟩
  · -- fees leave the payers and arrive at the destinations
    rw [List.map_fst_zip (by omega)] at htotal
    rw [hposttotal, hfees, hreceipts]
    exact htotal
  · intro i tx r htx hr
    have hi : i < (block.transactions.zip reads).length := by
      rw [hziplen]
      exact (List.getElem?_eq_some_iff.mp htx).1
    obtain ⟨before, after, receipt', hbefore, hafter, hround, hat⟩ :=
      foldlM_round_at hi hdistinct hlast
    have hsame : ∀ n, progressAfter sha256 genesis parent block n =
        ((block.transactions.zip reads).take n).foldlM (executeOne sha256 genesis)
          ⟨parent, ∅, []⟩ := by
      intro n
      rw [progressAfter, hreads, bind_of_ok rfl]
    rw [hrs, List.nil_append, List.length_nil, Nat.zero_add, ← hreceipts, hr,
      Option.some.injEq] at hat
    subst hat
    have htx' : (block.transactions.zip reads)[i].1 = tx := by
      simpa using (List.getElem?_eq_some_iff.mp htx).2
    rw [htx'] at hround
    exact ⟨hround.refund, before, after, (hsame _).trans hbefore, (hsame _).trans hafter,
      hround.unsuccessful⟩
  · rw [progressAfter, hreads, bind_of_ok rfl, List.take_of_length_le hziplen.le, hlast]
  · exact fun c hc => ⟨hdestinations c hc, hcredited c hc⟩
  · intro id hid
    refine hothers id fun hmem => ?_
    obtain ⟨c, hc, rfl⟩ := List.mem_map.mp hmem
    exact hid (hdestinations c hc)

theorem sample_conserves : ∃ post receipt,
    executeBlock sampleDigest sampleGenesis sampleObjects sampleBlock = .ok (post, receipt) ∧
      ObjectMap.total post = ObjectMap.total sampleObjects + 7 := by
  obtain ⟨post, receipt, h, -⟩ := sampleBlock_executes
  have hminted : (executeBlock sampleDigest sampleGenesis sampleObjects sampleBlock).map (fun x =>
      ((sampleBlock.transactions.zip x.2.receipts).map fun y => minted y.1 y.2.status).sum) =
        .ok 7 := by
    decide +kernel
  rw [h] at hminted
  exact ⟨post, receipt, h, (executeBlock_conserves h).2.1.trans
    (congrArg _ (Except.ok.inj hminted))⟩

end Trillionnium.Mvcc
