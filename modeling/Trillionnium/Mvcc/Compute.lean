import Trillionnium.Mvcc.Engine

/-!
# What one transaction computes

The objects a transaction replaces (`successorsOf_ok`, `appSuccessors_cases`), and that its
computation depends on nothing but the objects it declares (`computeTransaction_congr`).
-/

namespace Trillionnium.Mvcc

open Lib Pon

/-! ## Steps of a computation -/

section
variable {α : Type} {x : Option α} {a : α} {code : ErrorCode} {message : String}

@[simp] theorem okOr_eq_ok : okOr x code message = .ok a ↔ x = some a := by
  unfold okOr
  cases x <;> simp

@[simp] theorem expect_eq_ok : expect x message = .ok a ↔ x = some a := by
  unfold expect
  cases x <;> simp

end

/-! ## Validated transactions -/

variable {sha256 : Bytes → Hash} {genesis : Genesis} {state state' : ObjectMap} {tx : Transaction}
  {fee : U128}

/-- What the validation of a block establishes for each of its transactions. -/
structure Transaction.Valid (destinations : List TypedObjectId) (tx : Transaction) : Prop where
  reads : ∀ id, id ∈ tx.declaredReads ↔ id ∈ tx.touched
  distinct : requireDistinct tx = .ok ()
  payer : tx.feePayer ∉ destinations

theorem validateTransaction_valid {destinations : List TypedObjectId}
    (h : validateTransaction sha256 destinations seen index tx = .ok ()) :
    tx.Valid destinations := by
  simp only [validateTransaction, expectedAccess, bind_eq_ok, require_eq_ok, pure_eq_ok] at h
  obtain ⟨_, -, -, -, _, -, -, hbounds, -, -, -, -, _, ⟨_, hdistinct, rfl⟩, haccess, -⟩ := h
  refine ⟨fun id => ?_, hdistinct, hbounds.2.2.2.2.2.2⟩
  rw [haccess]
  exact List.mem_insertionSort _

theorem validateTransactions_valid {destinations : List TypedObjectId}
    (h : validateTransactions sha256 destinations seen index transactions = .ok ()) :
    ∀ tx ∈ transactions, tx.Valid destinations := by
  induction transactions generalizing seen index with
  | nil => simp
  | cons tx rest ih =>
    simp only [validateTransactions, bind_eq_ok] at h
    obtain ⟨_, htx, hrest⟩ := h
    exact List.forall_mem_cons.mpr ⟨validateTransaction_valid htx, ih hrest⟩

def Genesis.destinations (genesis : Genesis) : List TypedObjectId :=
  genesis.destinationSplits.map FeeDestinationSplit.destination

theorem validateBlock_valid (h : validateBlock sha256 genesis parent block = .ok ()) :
    ∀ tx ∈ block.transactions, tx.Valid genesis.destinations := by
  simp only [validateBlock, bind_eq_ok] at h
  obtain ⟨-, -, -, -, -, -, -, -, -, -, h⟩ := h
  exact validateTransactions_valid h

/-! ## Replaced objects -/

/-- The next version of an object, with the value `n`. -/
structure Advanced (o : ObjectState) (n : Nat) (o' : ObjectState) : Prop where
  schemaVersion : o'.schemaVersion = o.schemaVersion
  objectId : o'.objectId = o.objectId
  closed : o'.closed = o.closed
  version : o'.version.toNat = o.version.toNat + 1
  value : o'.value.toNat = n

theorem Advanced.mk_of {value : U128} {version : U64}
    (hvalue : value.toNat = n) (hversion : version.toNat = o.version.toNat + (1 : U64).toNat) :
    Advanced o n { o with value := value, version := version } :=
  ⟨rfl, rfl, rfl, hversion, hvalue⟩

/-- The objects of the program: none unless the transaction succeeds. -/
inductive AppEffect (state : ObjectMap) (tx : Transaction) : ObjectMap → Prop
  | idle : (disposition tx).1 ≠ .success → AppEffect state tx ∅
  | add {target : TypedObjectId} {amount : U128} {o o' : ObjectState} :
    (disposition tx).1 = .success → tx.program = .add target amount →
    state.get target = some o → Advanced o (o.value.toNat + amount.toNat) o' →
    AppEffect state tx (OrdMap.empty.insert target o')
  | transfer {source destination : TypedObjectId} {amount : U128} {o o' d d' : ObjectState} :
    (disposition tx).1 = .success → tx.program = .transfer source destination amount →
    state.get source = some o → state.get destination = some d → amount.toNat ≤ o.value.toNat →
    Advanced o (o.value.toNat - amount.toNat) o' → Advanced d (d.value.toNat + amount.toNat) d' →
    AppEffect state tx ((OrdMap.empty.insert source o').insert destination d')

theorem appSuccessors_effect (h : appSuccessors state tx = .ok app) : AppEffect state tx app := by
  unfold appSuccessors at h
  split at h
  · rename_i hstatus
    unfold programSuccessors at h
    split at h
    · rename_i target amount hprogram
      simp only [bind_eq_ok, pure_eq_ok, okOr_eq_ok, checkedAdd_eq_ok] at h
      obtain ⟨o, ho, value, hvalue, version, hversion, rfl⟩ := h
      exact .add hstatus hprogram ho (.mk_of hvalue hversion)
    · rename_i source destination amount hprogram
      simp only [bind_eq_ok, pure_eq_ok, okOr_eq_ok, checkedAdd_eq_ok, checkedSub_eq_ok,
        require_eq_ok] at h
      obtain ⟨o, ho, d, hd, -, hle, v, hv, v', hv', n, hn, n', hn', rfl⟩ := h
      exact .transfer hstatus hprogram ho hd hle (.mk_of (Nat.eq_sub_of_add_eq hv) hn)
        (.mk_of hv' hn')
    · cases h
  · cases h
    exact .idle ‹_›

/-- The program's objects and the fee payer, who pays the fee. -/
theorem successorsOf_ok (h : successorsOf state tx fee = .ok successors) :
    ∃ payer payer' app, state.get tx.feePayer = some payer ∧ fee.toNat ≤ payer.value.toNat ∧
      Advanced payer (payer.value.toNat - fee.toNat) payer' ∧ AppEffect state tx app ∧
      successors = app.insert tx.feePayer payer' := by
  simp only [successorsOf, payerSuccessor, bind_eq_ok, pure_eq_ok, okOr_eq_ok, require_eq_ok,
    checkedAdd_eq_ok, checkedSub_eq_ok] at h
  obtain ⟨payer, hpayer, -, hle, app, happ, _, ⟨v, hv, n, hn, rfl⟩, rfl⟩ := h
  exact ⟨payer, _, app, hpayer, hle, .mk_of (Nat.eq_sub_of_add_eq hv) hn, appSuccessors_effect happ,
    rfl⟩

/-- Every replaced object is one the transaction touches, in its next version. -/
theorem successorsOf_get (h : successorsOf state tx fee = .ok successors)
    {id : TypedObjectId} (hid : successors.get id = some o') :
    id ∈ tx.touched ∧ ∃ o n, state.get id = some o ∧ Advanced o n o' := by
  obtain ⟨payer, payer', app, hpayer, -, hadvanced, happ, rfl⟩ := successorsOf_ok h
  have htouched : tx.feePayer ∈ tx.touched := by
    unfold Transaction.touched
    split <;> simp
  rw [OrdMap.get_insert] at hid
  split at hid
  · rename_i heq
    cases hid
    exact heq ▸ ⟨htouched, payer, _, hpayer, hadvanced⟩
  · cases happ with
    | idle => cases hid
    | @add target amount o object' _ hprogram ho hadv =>
      rw [OrdMap.get_insert] at hid
      split at hid
      · rename_i heq
        cases hid
        exact heq ▸ ⟨by simp [Transaction.touched, hprogram], o, _, ho, hadv⟩
      · cases hid
    | @transfer source destination amount o s' d d' _ hprogram ho hd _ hadv hadv' =>
      rw [OrdMap.get_insert, OrdMap.get_insert] at hid
      split at hid
      · rename_i heq
        cases hid
        exact heq ▸ ⟨by simp [Transaction.touched, hprogram], d, _, hd, hadv'⟩
      · split at hid
        · rename_i heq
          cases hid
          exact heq ▸ ⟨by simp [Transaction.touched, hprogram], o, _, ho, hadv⟩
        · cases hid

/-! ## What a computation depends on -/

variable {reads : List ReadSetEntry}

theorem readBytes_congr
    (h : ∀ entry ∈ reads, state.get entry.objectId = state'.get entry.objectId) :
    readBytes state reads = readBytes state' reads := by
  unfold readBytes
  generalize (0 : U128) = sum
  induction reads generalizing sum with
  | nil => rfl
  | cons entry reads ih =>
    obtain ⟨hentry, hreads⟩ := List.forall_mem_cons.mp h
    simp only [List.foldlM_cons, hentry]
    exact bind_congr_ok fun sum _ => ih hreads sum

/-- The states hold the same objects at the given identifiers. -/
def AgreeOn (ids : List TypedObjectId) (state state' : ObjectMap) : Prop :=
  ∀ id ∈ ids, state.get id = state'.get id

variable (h : AgreeOn tx.touched state state')
include h

theorem AgreeOn.payer : state.get tx.feePayer = state'.get tx.feePayer :=
  h _ (by unfold Transaction.touched; split <;> simp)

theorem programSuccessors_congr : programSuccessors state tx = programSuccessors state' tx := by
  unfold programSuccessors
  cases hp : tx.program with
  | add target amount =>
    have htarget : state.get target = state'.get target := h _ (by simp [Transaction.touched, hp])
    simp only [htarget]
  | transfer source destination amount =>
    have hsource : state.get source = state'.get source := h _ (by simp [Transaction.touched, hp])
    have hdest : state.get destination = state'.get destination :=
      h _ (by simp [Transaction.touched, hp])
    simp only [hsource, hdest]
  | revert errorClass => rfl

theorem successorsOf_congr : successorsOf state tx fee = successorsOf state' tx fee := by
  simp only [successorsOf, appSuccessors, h.payer, programSuccessors_congr h]

theorem resourceUsage_congr (hreads : ∀ entry ∈ reads, entry.objectId ∈ tx.touched) :
    resourceUsage sha256 state tx reads = resourceUsage sha256 state' tx reads := by
  have hbytes := readBytes_congr fun entry he => h _ (hreads entry he)
  simp only [resourceUsage, writeBytes, hbytes, h.payer]

/-- The computation of a transaction sees the objects it touches and no others. -/
theorem computeTransaction_congr (hreads : ∀ entry ∈ reads, entry.objectId ∈ tx.touched) :
    computeTransaction sha256 genesis state tx reads =
      computeTransaction sha256 genesis state' tx reads := by
  unfold computeTransaction
  rw [resourceUsage_congr h hreads]
  refine bind_congr_ok fun usage _ => bind_congr_ok fun fee _ => bind_congr_ok fun _ _ => ?_
  rw [successorsOf_congr h]
  refine bind_congr_ok fun successors hsuccessors => ?_
  have hwrites : successors.entries.mapM (writeSetEntry sha256 state) =
      successors.entries.mapM (writeSetEntry sha256 state') := by
    refine mapM_congr fun write hw => ?_
    have hget : state.get write.1 = state'.get write.1 :=
      h _ (successorsOf_get hsuccessors (OrdMap.mem_entries.mp hw)).1
    simp only [writeSetEntry, hget]
  rw [hwrites]

end Trillionnium.Mvcc
