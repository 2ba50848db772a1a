import Trillionnium.Mvcc.Compute
import Trillionnium.Lib.Versioned

/-!
# The schedule does not matter

Executing a block by workers is executing it one transaction after another, as a whole result: the
same objects and receipt or the same error (`executeBlockWithWorkers_eq`). Workers do not panic
under a valid genesis (`speculate_calm`). Every write raises the version of its object, so reads
whose versions are unchanged are reads of unchanged objects, and what a worker computed from them is
what the loop would compute (`executeSpeculated_eq`).
-/

namespace Trillionnium.Mvcc

open Lib Pon

variable {sha256 : Bytes → Hash} {genesis : Genesis} {parent state state' : ObjectMap}
  {reads : List ReadSetEntry} {tx : Transaction} {transactions : List Transaction}

/-! ## No panics -/

/-- The computation does not panic. -/
def Calm {α : Type} (x : Outcome α) : Prop := ∀ message, x ≠ .error (.panicked message)

namespace Calm

variable {α β : Type} {x : Outcome α} {code : ErrorCode} {message : String}

theorem ok : Calm (.ok a : Outcome α) := nofun

theorem coded : Calm (.error (.coded code message) : Outcome α) := nofun

theorem bind (hx : Calm x) (hf : ∀ a, x = .ok a → Calm (f a)) : Calm (x >>= f) := by
  cases x with
  | error e =>
    intro m h
    cases h
    exact hx m rfl
  | ok a => exact hf a rfl

theorem require {p : Prop} [Decidable p] : Calm (Lib.require p (.coded code message)) := by
  unfold Lib.require
  split
  · exact ok
  · exact coded

theorem okOr : Calm (Mvcc.okOr y code message) := by
  cases y
  · exact coded
  · exact ok

theorem expect (h : y ≠ none) : Calm (Mvcc.expect y message) := by
  obtain ⟨a, rfl⟩ := Option.ne_none_iff_exists'.mp h
  exact ok

theorem mapM {l : List α} (h : ∀ a ∈ l, Calm (f a)) : Calm (l.mapM f) := by
  intro m hm
  obtain ⟨a, ha, he⟩ := List.exists_of_findSome?_eq_some (mapM_eq_error.mp hm)
  cases hf : f a with
  | ok b => simp [hf] at he
  | error e =>
    rw [hf, errorOf_error, Option.some.injEq] at he
    exact h a ha m (he ▸ hf)

theorem foldlM {l : List α} (h : ∀ a ∈ l, ∀ b, Calm (f b a)) (b : β) : Calm (l.foldlM f b) := by
  induction l generalizing b with
  | nil => exact ok
  | cons a l ih =>
    obtain ⟨ha, hl⟩ := List.forall_mem_cons.mp h
    rw [List.foldlM_cons]
    exact bind (ha b) fun b _ => ih hl b

theorem checkedAdd : Calm (Lib.checkedAdd a b (.coded code message)) := by
  unfold Lib.checkedAdd
  split
  · exact ok
  · exact coded

theorem checkedSub : Calm (Lib.checkedSub a b (.coded code message)) := by
  unfold Lib.checkedSub
  split
  · exact ok
  · exact coded

theorem checkedMul : Calm (Lib.checkedMul a b (.coded code message)) := by
  unfold Lib.checkedMul
  split
  · exact ok
  · exact coded

theorem ofLength : Calm (Mvcc.ofLength w n (.coded code message)) := by
  unfold Mvcc.ofLength
  split
  · exact ok
  · exact coded

theorem digestValue : Calm (Mvcc.digestValue sha256 domain c a) :=
  okOr.bind fun _ _ => require.bind fun _ _ => require.bind fun _ _ => ok

end Calm

/-- No price and no split of the genesis makes the arithmetic panic. -/
structure Genesis.Solvable (genesis : Genesis) : Prop where
  prices : ∀ p ∈ genesis.resourcePrices, p.priceDenominator ≠ 0 ∧ p.minimumCharge ≤ p.maximumCharge
  splits : ∀ s ∈ genesis.destinationSplits, s.denominator ≠ 0

theorem validateGenesis_solvable (h : validateGenesis genesis = .ok ()) : genesis.Solvable := by
  simp only [validateGenesis, bind_eq_ok, require_eq_ok, expect_eq_ok] at h
  obtain ⟨-, hbounds, -, -, -, -, -, -, -, hprices, -, -, first, hfirst, -, hsplits, -⟩ := h
  refine ⟨fun p hp => ?_, fun s hs => ?_⟩
  · obtain ⟨i, hi, rfl⟩ := List.mem_iff_getElem.mp hp
    have hlen : genesis.resourcePrices.length = resourceClasses.length :=
      hbounds.2.2.2.2.2.2.2.2.2.1
    have hmem : (genesis.resourcePrices[i], resourceClasses[i]) ∈
        genesis.resourcePrices.zip resourceClasses :=
      List.mem_iff_getElem.mpr ⟨i, by simp [← hlen, hi], by simp⟩
    exact (hprices _ hmem).2.2
  · rw [(hsplits.2.1 s hs).1]
    exact hsplits.1

theorem readSet_calm : Calm (readSet sha256 state tx) :=
  .mapM fun _ _ => Calm.okOr.bind fun _ _ => Calm.require.bind fun _ _ =>
    Calm.digestValue.bind fun _ _ => .ok

theorem charge_calm (h : price.priceDenominator ≠ 0 ∧ price.minimumCharge ≤ price.maximumCharge) :
    Calm (charge price item) := by
  refine Calm.require.bind fun _ _ => Calm.checkedMul.bind fun _ _ => Calm.bind ?_ fun _ _ =>
    Calm.checkedAdd.bind fun _ _ => ?_
  · rw [divisor, if_neg h.1]
    exact .ok
  · rw [clamp, if_pos h.2]
    exact .ok

theorem calculateFee_calm {usage : List ResourceUsage} (h : genesis.Solvable) :
    Calm (calculateFee genesis.resourcePrices usage) := by
  refine .foldlM (fun x hx _ => ?_) _
  have hprice := h.prices x.1 (List.of_mem_zip (show (x.1, x.2) ∈ _ from hx)).1
  exact (charge_calm hprice).bind fun _ _ => .checkedAdd

theorem addRemainder_calm {destination : TypedObjectId} :
    Calm (addRemainder destination remainder deltas) := by
  induction deltas with
  | nil => exact .coded
  | cons delta deltas ih =>
    unfold addRemainder
    split
    · exact Calm.checkedAdd.bind fun _ _ => .ok
    · exact ih.bind fun _ _ => .ok

theorem splitFee_calm {source : TypedObjectId} {fee : U128} (h : genesis.Solvable) :
    Calm (splitFee genesis source fee) := by
  have hshares : Calm (genesis.destinationSplits.foldlM
    (fun (acc : List FeeDelta × U128) split => do
      let share ← feeShare source fee split
      let assigned ← checkedAdd acc.2 share.amount (overflow "fee split sum overflow")
      pure (acc.1 ++ [share], assigned)) ([], 0)) := by
    refine .foldlM (fun split hs _ => ?_) _
    refine Calm.bind (Calm.checkedMul.bind fun _ _ => Calm.bind ?_ fun _ _ => .ok) fun _ _ =>
      Calm.checkedAdd.bind fun _ _ => .ok
    rw [divisor, if_neg (h.splits split hs)]
    exact .ok
  exact hshares.bind fun _ _ => Calm.checkedSub.bind fun _ _ => addRemainder_calm.bind fun _ _ =>
    (Calm.foldlM (fun _ _ _ => .checkedAdd) _).bind fun _ _ => Calm.require.bind fun _ _ => .ok

theorem successorsOf_calm : Calm (successorsOf state tx fee) := by
  have happ : Calm (appSuccessors state tx) := by
    unfold appSuccessors
    split
    · rename_i hstatus
      unfold programSuccessors
      cases hp : tx.program with
      | add target amount =>
        exact Calm.okOr.bind fun _ _ => Calm.checkedAdd.bind fun _ _ => Calm.checkedAdd.bind
          fun _ _ => .ok
      | transfer source destination amount =>
        exact Calm.okOr.bind fun _ _ => Calm.okOr.bind fun _ _ => Calm.require.bind fun _ _ =>
          Calm.checkedSub.bind fun _ _ => Calm.checkedAdd.bind fun _ _ => Calm.checkedAdd.bind
          fun _ _ => Calm.checkedAdd.bind fun _ _ => .ok
      | revert errorClass => simp [disposition, hp] at hstatus
    · exact .ok
  exact Calm.okOr.bind fun _ _ => Calm.require.bind fun _ _ => happ.bind fun _ _ =>
    (Calm.checkedSub.bind fun _ _ => Calm.checkedAdd.bind fun _ _ => .ok).bind fun _ _ => .ok

theorem resourceUsage_calm (h : ∀ entry ∈ reads, state.get entry.objectId ≠ none) :
    Calm (resourceUsage sha256 state tx reads) := by
  have hread : Calm (readBytes state reads) :=
    .foldlM (fun entry he _ => (Calm.expect (h entry he)).bind fun _ _ => Calm.okOr.bind fun _ _ =>
      Calm.ofLength.bind fun _ _ => .checkedAdd) _
  have hwrite : Calm (writeBytes state tx (disposition tx).1) :=
    Calm.okOr.bind fun _ _ => Calm.okOr.bind fun _ _ => Calm.ofLength.bind fun _ _ =>
      Calm.ofLength.bind fun _ _ => .checkedMul
  exact hread.bind fun _ _ => hwrite.bind fun _ _ => (Calm.okOr.bind fun _ _ => .ofLength).bind
    fun _ _ => .mapM fun _ _ => Calm.digestValue.bind fun _ _ => .ok

theorem computeTransaction_calm (hg : genesis.Solvable)
    (h : ∀ entry ∈ reads, state.get entry.objectId ≠ none) :
    Calm (computeTransaction sha256 genesis state tx reads) := by
  refine (resourceUsage_calm h).bind fun _ _ => (calculateFee_calm hg).bind fun _ _ =>
    Calm.require.bind fun _ _ => successorsOf_calm.bind fun successors hs => Calm.bind ?_ fun _ _ =>
    (splitFee_calm hg).bind fun _ _ => Calm.digestValue.bind fun _ _ => Calm.digestValue.bind
    fun _ _ => Calm.digestValue.bind fun _ _ => Calm.checkedSub.bind fun _ _ => .ok
  refine .mapM fun write hw => Calm.bind (.expect ?_) fun _ _ => Calm.digestValue.bind fun _ _ =>
    .ok
  obtain ⟨-, o, -, ho, -⟩ := successorsOf_get hs (OrdMap.mem_entries.mp hw)
  simp [ho]

/-! ## Read sets -/

theorem readSetEntry_ok {id : TypedObjectId} (h : readSetEntry sha256 state id = .ok entry) :
    entry.objectId = id ∧ ∃ o, state.get id = some o ∧ entry.observedVersion = o.version := by
  simp only [readSetEntry, bind_eq_ok, pure_eq_ok, okOr_eq_ok, require_eq_ok] at h
  obtain ⟨o, ho, -, -, hash, -, rfl⟩ := h
  exact ⟨rfl, o, ho, rfl⟩

theorem readSet_present (h : readSet sha256 state tx = .ok reads) :
    ∀ entry ∈ reads, entry.objectId ∈ tx.declaredReads ∧ state.get entry.objectId ≠ none := by
  intro entry he
  obtain ⟨id, hid, hentry⟩ := exists_of_mem_mapM h he
  obtain ⟨rfl, o, ho, -⟩ := readSetEntry_ok hentry
  exact ⟨hid, by simp [ho]⟩

theorem readSet_congr (h : AgreeOn tx.declaredReads state state') :
    readSet sha256 state tx = readSet sha256 state' tx :=
  mapM_congr fun id hid => by simp only [readSetEntry, h id hid]

/-- Without a conflict the versions of the declared objects are unchanged. -/
theorem version_eq_of_no_conflict {ids : List TypedObjectId}
    (hi : ids.mapM (readSetEntry sha256 parent) = .ok initial)
    (hc : ids.mapM (readSetEntry sha256 state) = .ok current)
    (h : conflictingObjects initial current = []) :
    ∀ id ∈ ids, ∃ o o', parent.get id = some o ∧ state.get id = some o' ∧
      o'.version = o.version := by
  induction ids generalizing initial current with
  | nil => simp
  | cons id ids ih =>
    rw [List.mapM_cons] at hi hc
    simp only [bind_eq_ok, pure_eq_ok] at hi hc
    obtain ⟨first, hfirst, initial, hinitial, rfl⟩ := hi
    obtain ⟨first', hfirst', current, hcurrent, rfl⟩ := hc
    obtain ⟨-, o, ho, hversion⟩ := readSetEntry_ok hfirst
    obtain ⟨-, o', ho', hversion'⟩ := readSetEntry_ok hfirst'
    rw [conflictingObjects, List.zip_cons_cons, List.filterMap_cons] at h
    split at h
    · rename_i hnone
      have hsame : first.observedVersion = first'.observedVersion := by
        by_contra hne
        simp [hne] at hnone
      refine List.forall_mem_cons.mpr ⟨⟨o, o', ho, ho', ?_⟩, ih hinitial hcurrent h⟩
      rw [← hversion, ← hversion', hsame]
    · cases h

theorem speculate_calm (hg : genesis.Solvable) :
    rowPanics (speculate sha256 genesis parent tx) = false := by
  unfold speculate
  cases hr : readSet sha256 parent tx with
  | error e =>
    cases e with
    | coded code message => rfl
    | panicked message => exact absurd hr (readSet_calm message)
  | ok reads =>
    have hcalm : Calm (computeTransaction sha256 genesis parent tx reads) :=
      computeTransaction_calm hg fun entry he => (readSet_present hr entry he).2
    show rowPanics (.ok ⟨reads, computeTransaction sha256 genesis parent tx reads⟩) = false
    cases hc : computeTransaction sha256 genesis parent tx reads with
    | ok computed => rfl
    | error e =>
      cases e with
      | coded code message => rfl
      | panicked message => exact absurd hc (hcalm message)

/-! ## The loop -/

/-- The current objects differ from the parent's by writes that raised versions. -/
def Follows (parent current : ObjectMap) : Prop :=
  ∃ written, Tracks (fun o : ObjectState => o.version.toNat) parent written current

theorem Follows.refl : Follows parent parent := ⟨_, .refl⟩

theorem Follows.extend (h : Follows parent state)
    (hs : successorsOf state tx fee = .ok successors) :
    Follows parent (state.extend successors) := by
  obtain ⟨written, h⟩ := h
  have hwrote : Wrote (fun o : ObjectState => o.version.toNat) state
      (fun id => (successors.get id).isSome) (state.extend successors) := by
    intro id
    rw [OrdMap.get_extend]
    cases hid : successors.get id with
    | none => simp [hid]
    | some o' =>
      obtain ⟨-, o, n, ho, hadvanced⟩ := successorsOf_get hs hid
      simpa [hid, ho] using Nat.lt_of_lt_of_eq (Nat.lt_succ_self _) hadvanced.version.symm
  exact ⟨_, h.step hwrote⟩

theorem computeTransaction_successors
    (h : computeTransaction sha256 genesis state tx reads = .ok computed) :
    successorsOf state tx computed.feeCharged = .ok computed.successors := by
  simp only [computeTransaction, bind_eq_ok, pure_eq_ok] at h
  obtain ⟨usage, -, fee, -, -, -, successors, hs, writes, -, deltas, -, r, -, r', -, r'', -, f, -,
    rfl⟩ := h
  exact hs

theorem executeOne_follows (h : Follows parent progress.current)
    (he : executeOne sha256 genesis progress (tx, reads) = .ok progress') :
    Follows parent progress'.current := by
  simp only [executeOne, commitComputed, bind_eq_ok, pure_eq_ok] at he
  obtain ⟨current, -, computed, hcomputed, pending, -, root, -, rfl⟩ := he
  exact h.extend (computeTransaction_successors hcomputed)

/-- Using the worker's computation or repeating it is computing on the current objects. -/
theorem executeSpeculated_eq {destinations : List TypedObjectId} (hv : tx.Valid destinations)
    (h : Follows parent progress.current) (hr : readSet sha256 parent tx = .ok reads) :
    executeOne sha256 genesis progress (tx, reads) = executeSpeculated sha256 genesis progress
      (tx, ⟨reads, computeTransaction sha256 genesis parent tx reads⟩) := by
  unfold executeOne executeSpeculated
  refine bind_congr_ok fun current hcurrent => ?_
  dsimp only at hcurrent ⊢
  suffices hselect : selectComputed sha256 genesis progress.current
      (tx, ⟨reads, computeTransaction sha256 genesis parent tx reads⟩)
      (conflictingObjects reads current) current =
        computeTransaction sha256 genesis progress.current tx current by rw [hselect]
  unfold selectComputed
  split
  · rename_i hnone
    obtain ⟨written, htracks⟩ := h
    have hagree : AgreeOn tx.declaredReads parent progress.current := by
      intro id hid
      obtain ⟨o, o', ho, ho', hversion⟩ := version_eq_of_no_conflict hr hcurrent hnone id hid
      have hunwritten := (htracks.version_ne_iff ho ho').not.mp (by simp [hversion])
      exact (htracks.same id (by simpa using hunwritten)).symm
    have htouched : AgreeOn tx.touched parent progress.current := fun id hid =>
      hagree id ((hv.reads id).mpr hid)
    cases hr.symm.trans ((readSet_congr hagree).trans hcurrent)
    exact computeTransaction_congr htouched fun entry he =>
      (hv.reads _).mp (readSet_present hr entry he).1
  · rfl

/-! ## Blocks -/

theorem mapM_speculate : transactions.mapM (speculate sha256 genesis parent) =
    transactions.mapM (readSet sha256 parent) >>= fun reads =>
      pure ((transactions.zip reads).map fun x =>
        ⟨x.2, computeTransaction sha256 genesis parent x.1 x.2⟩) := by
  induction transactions with
  | nil => rfl
  | cons tx rest ih =>
    simp only [List.mapM_cons, speculate, bind_assoc, pure_bind] at ih ⊢
    refine bind_congr_ok fun reads _ => ?_
    rw [ih]
    simp only [bind_assoc, pure_bind, List.zip_cons_cons, List.map_cons]

theorem parallelSpeculative_eq (hg : genesis.Solvable)
    (hw : validateWorkerCount workerCount = .ok ()) :
    parallelSpeculative sha256 genesis parent transactions workerCount =
      transactions.mapM (speculate sha256 genesis parent) := by
  have hworkers : 0 < min workerCount (max transactions.length 1) := by
    simp only [validateWorkerCount, require_eq_ok] at hw
    omega
  have hcalm : ∀ row ∈ (joined (min workerCount (max transactions.length 1)) transactions).map
      (fun x => (x.2, speculate sha256 genesis parent x.1)), rowPanics row.2 = false := by
    intro row hrow
    obtain ⟨x, -, rfl⟩ := List.mem_map.mp hrow
    exact speculate_calm hg
  unfold parallelSpeculative
  dsimp only
  rw [hw, bind_of_ok rfl, require, if_pos hcalm, bind_of_ok rfl, fill_joined hworkers,
    List.mapM_map]
  rfl

theorem zip_map_zip {α β γ : Type} (f : α × β → γ) (l : List α) (r : List β) :
    l.zip ((l.zip r).map f) = (l.zip r).map fun x => (x.1, f x) := by
  induction l generalizing r with
  | nil => rfl
  | cons a l ih =>
    cases r with
    | nil => rfl
    | cons b r => simp [ih]

/-- The rounds of the two loops agree. -/
theorem foldlM_executeSpeculated {reads : List (List ReadSetEntry)}
    {destinations : List TypedObjectId} (hv : ∀ tx ∈ transactions, tx.Valid destinations)
    (h : Follows parent progress.current)
    (hr : transactions.mapM (readSet sha256 parent) = .ok reads) :
    (transactions.zip reads).foldlM (executeOne sha256 genesis) progress =
      ((transactions.zip reads).map fun x => (x.1, (⟨x.2,
        computeTransaction sha256 genesis parent x.1 x.2⟩ : Speculative))).foldlM
          (executeSpeculated sha256 genesis) progress := by
  have hread := forall₂_of_mapM hr
  refine foldlM_congr h (fun x hx p hp => ?_) fun x _ p p' hp he => executeOne_follows hp he
  exact executeSpeculated_eq (hv _ (List.of_mem_zip hx).1) hp (List.forall₂_zip hread hx)

theorem executeBlockWithWorkers_of_valid {block : Block}
    (hg : validateGenesis genesis = .ok ()) (hw : validateWorkerCount workerCount = .ok ()) :
    executeBlockWithWorkers sha256 genesis parent block workerCount =
      executeBlock sha256 genesis parent block := by
  unfold executeBlockWithWorkers executeBlock
  rw [hw, bind_of_ok rfl]
  refine bind_congr_ok fun _ hv => bind_congr_ok fun root _ => ?_
  rw [parallelSpeculative_eq (validateGenesis_solvable hg) hw, mapM_speculate, bind_assoc]
  refine bind_congr_ok fun reads hreads => ?_
  rw [pure_bind, zip_map_zip, ← foldlM_executeSpeculated (validateBlock_valid hv) .refl hreads]

/-- Executing a block by any admissible number of workers is executing it sequentially. -/
theorem executeBlockWithWorkers_eq {workerCount : Nat} {block : Block}
    (hg : validateGenesis genesis = .ok ()) (hw : 1 ≤ workerCount ∧ workerCount ≤ 64) :
    executeBlockWithWorkers sha256 genesis parent block workerCount =
      executeBlock sha256 genesis parent block :=
  executeBlockWithWorkers_of_valid hg (require_eq_ok.mpr ⟨Nat.one_le_iff_ne_zero.mp hw.1, hw.2⟩)

/-- A digest that the samples can be evaluated with. -/
def sampleDigest (bs : Bytes) : Hash :=
  .ofByte (.ofNat (bs.foldl (fun a b => (3 * a + b.toNat + 1) % 256) 7))

def sampleId (n : UInt8) : TypedObjectId := ⟨45, .ofByte n⟩

def sampleObject (n : UInt8) (value : U128) : ObjectState := ⟨1, sampleId n, 0, value, false⟩

def samplePrice (row : U16 × U16) : ResourcePrice := ⟨row.1, [], row.2, 1, 1, 1, 1000⟩

def sampleGenesis : Genesis where
  schemaVersion := 1
  context := ⟨[1], .ofByte 1, Bytes.ofString "trnm-portable-application-v2", 1, .ofByte 2⟩
  storeId := .ofByte 3
  initialHeight := 0
  initialBlockId := .ofByte 4
  initialObjects := [sampleObject 1 9000, sampleObject 2 0, sampleObject 3 0, sampleObject 9 0]
  resourcePrices := resourceClasses.map samplePrice
  destinationSplits := [⟨sampleId 9, 1, 1⟩]
  remainderDestination := sampleId 9

theorem sampleGenesis_valid : validateGenesis sampleGenesis = .ok () := by decide +kernel

def sampleObjects : ObjectMap := .ofList (sampleGenesis.initialObjects.map fun o => (o.objectId, o))

def sampleTx (index : U32) (ids : List TypedObjectId) (program : ObjectProgram) : Transaction :=
  let tx : Transaction := ⟨1, .zero, index, sampleId 1, ids, ids, 100, 4000, program⟩
  { tx with transactionId := (deriveTransactionId sampleDigest tx).toOption.getD .zero }

/-- An addition, and a transfer of what it added. -/
def sampleBlock : Block :=
  let block : Block := ⟨1, sampleGenesis.context, .zero, 1, 0, .ofByte 4,
    (stateRoot sampleDigest sampleObjects).toOption.getD .zero,
    [sampleTx 0 [sampleId 1, sampleId 2] (.add (sampleId 2) 7),
      sampleTx 1 [sampleId 1, sampleId 2, sampleId 3] (.transfer (sampleId 2) (sampleId 3) 5)]⟩
  { block with blockId := (deriveBlockId sampleDigest block).toOption.getD .zero }

/-- The transfer conflicts with the addition and is executed again. -/
theorem sampleBlock_executes : ∃ post receipt,
    executeBlock sampleDigest sampleGenesis sampleObjects sampleBlock = .ok (post, receipt) ∧
      receipt.receipts.map (fun r => (r.status, r.retryCount)) =
        [(.success, 0), (.success, 1)] := by
  have h : (executeBlock sampleDigest sampleGenesis sampleObjects sampleBlock).map
      (fun x => x.2.receipts.map fun r => (r.status, r.retryCount)) =
        .ok [(.success, 0), (.success, 1)] := by
    decide +kernel
  obtain ⟨⟨post, receipt⟩, hok, hreceipts⟩ := map_eq_ok.mp h
  exact ⟨post, receipt, hok, hreceipts⟩

theorem sample_schedule : ∃ post receipt,
    executeBlockWithWorkers sampleDigest sampleGenesis sampleObjects sampleBlock 2 =
      .ok (post, receipt) ∧
      receipt.receipts.map (fun r => (r.status, r.retryCount)) =
        [(.success, 0), (.success, 1)] := by
  rw [executeBlockWithWorkers_eq sampleGenesis_valid (by decide)]
  exact sampleBlock_executes

end Trillionnium.Mvcc
