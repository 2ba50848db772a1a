import Mathlib.Data.FinEnum
import Trillionnium.Hash
import Trillionnium.Lib.Checked
import Trillionnium.Lib.Code
import Trillionnium.Lib.Fallible

/-!
# Blocks, objects and receipts

The records of `types.rs` with the integer widths of the source, their Borsh encoding and the digest
of `codec.rs`. SHA-256 is a parameter.
-/

namespace Trillionnium.Mvcc

open Lib Pon

/-! ## Errors -/

inductive ErrorCode where
  | invalidContext
  | invalidBounds
  | nonCanonical
  | identifierMismatch
  | invalidState
  | staleParent
  | undeclaredAccess
  | duplicateAccess
  | insufficientFunds
  | feeLimitExceeded
  | arithmeticOverflow
  | conservationViolation
  | notFound
  | storeFailure
  | schemaMismatch
  | tamperDetected
  | sidecarPresent
  | commitUncertain
  | thirdStateFenced
  deriving DecidableEq

/-- What ends a computation without a value: an error of the source, or a panic. -/
inductive Failure where
  | coded (code : ErrorCode) (message : String)
  | panicked (message : String)
  deriving DecidableEq

abbrev Outcome (α : Type) := Except Failure α

def okOr {α : Type} (value : Option α) (code : ErrorCode) (message : String) : Outcome α :=
  value.elim (.error (.coded code message)) .ok

def expect {α : Type} (value : Option α) (message : String) : Outcome α :=
  value.elim (.error (.panicked message)) .ok

/-! ## Codes -/

abbrev Borsh (α : Type) := Code α

def u16 : Borsh U16 := .uint 16 2 (by norm_num)
def u32 : Borsh U32 := .uint 32 4 (by norm_num)
def u64 : Borsh U64 := .uint 64 8 (by norm_num)
def u128 : Borsh U128 := .uint 128 16 (by norm_num)
def hash32 : Borsh Hash := .fixed 32 Hash.bytes Hash.ofBytes Hash.size_eq Hash.ofBytes_bytes
def bytes : Borsh Bytes := Code.byte.vec

/-! ## Objects -/

structure TypedObjectId where
  objectKind : U16
  objectId : Hash
  deriving DecidableEq

namespace TypedObjectId

/-- The derived order: the kind, then the identifier. -/
def key (id : TypedObjectId) : U16 ×ₗ Hash := toLex (id.objectKind, id.objectId)

theorem key_inj {a b : TypedObjectId} (h : a.key = b.key) : a = b := by
  obtain ⟨kind, id⟩ := a
  obtain ⟨kind', id'⟩ := b
  obtain ⟨hkind, hid⟩ := Prod.mk.inj (toLex.injective h)
  exact congrArg₂ mk hkind hid

instance : LinearOrder TypedObjectId where
  le a b := a.key ≤ b.key
  lt a b := a.key < b.key
  le_refl a := le_refl a.key
  le_trans _ _ _ := le_trans (α := U16 ×ₗ Hash)
  le_antisymm _ _ h h' := key_inj (le_antisymm h h')
  le_total a b := le_total a.key b.key
  lt_iff_le_not_ge a b := lt_iff_le_not_ge (a := a.key) (b := b.key)
  toDecidableLE a b := inferInstanceAs (Decidable (a.key ≤ b.key))
  toDecidableLT a b := inferInstanceAs (Decidable (a.key < b.key))
  toDecidableEq := inferInstance

def code : Borsh TypedObjectId :=
  (u16.pair hash32).record
    (fun x => (x.objectKind, x.objectId)) ↿TypedObjectId.mk fun _ => rfl

end TypedObjectId

structure ObjectState where
  schemaVersion : U16
  objectId : TypedObjectId
  version : U64
  value : U128
  closed : Bool

def ObjectState.code : Borsh ObjectState :=
  (u16.pair <| TypedObjectId.code.pair <| u64.pair <| u128.pair .bool).record
    (fun ⟨a, b, c, d, e⟩ => (a, b, c, d, e)) ↿ObjectState.mk fun _ => rfl

abbrev ObjectMap := OrdMap TypedObjectId ObjectState

/-! ## Genesis -/

structure ProtocolContext where
  chainId : Bytes
  genesisHash : Hash
  protocolId : Bytes
  protocolVersion : U32
  profileHash : Hash
  deriving DecidableEq

def ProtocolContext.code : Borsh ProtocolContext :=
  (bytes.pair <| hash32.pair <| bytes.pair <| u32.pair hash32).record
    (fun ⟨a, b, c, d, e⟩ => (a, b, c, d, e)) ↿ProtocolContext.mk fun _ => rfl

structure ResourcePrice where
  resourceClass : U16
  resourceId : Bytes
  unit : U16
  priceNumerator : U128
  priceDenominator : U128
  minimumCharge : U128
  maximumCharge : U128

structure FeeDestinationSplit where
  destination : TypedObjectId
  numerator : U128
  denominator : U128

structure Genesis where
  schemaVersion : U16
  context : ProtocolContext
  storeId : Hash
  initialHeight : U64
  initialBlockId : Hash
  initialObjects : List ObjectState
  resourcePrices : List ResourcePrice
  destinationSplits : List FeeDestinationSplit
  remainderDestination : TypedObjectId

/-! ## Blocks -/

inductive ObjectProgram where
  | add (target : TypedObjectId) (amount : U128)
  | transfer (source destination : TypedObjectId) (amount : U128)
  | revert (errorClass : U16)

namespace ObjectProgram

/-- The fields of each program, in the order of their tags. -/
abbrev Fields : Fin 3 → Type
  | 0 => TypedObjectId × U128
  | 1 => TypedObjectId × TypedObjectId × U128
  | 2 => U16

def fields : ObjectProgram → (i : Fin 3) × Fields i
  | add target amount => ⟨0, target, amount⟩
  | transfer source destination amount => ⟨1, source, destination, amount⟩
  | revert errorClass => ⟨2, errorClass⟩

def fieldCode : (i : Fin 3) → Borsh (Fields i)
  | 0 => TypedObjectId.code.pair u128
  | 1 => TypedObjectId.code.pair <| TypedObjectId.code.pair u128
  | 2 => u16

def code : Borsh ObjectProgram :=
  (Code.tagged (by norm_num) fieldCode).through fields
    (fun
      | ⟨0, target, amount⟩ => some (add target amount)
      | ⟨1, source, destination, amount⟩ => some (transfer source destination amount)
      | ⟨2, errorClass⟩ => some (revert errorClass))
    fun program => by cases program <;> rfl

end ObjectProgram

structure Transaction where
  schemaVersion : U16
  transactionId : Hash
  transactionIndex : U32
  feePayer : TypedObjectId
  declaredReads : List TypedObjectId
  declaredWrites : List TypedObjectId
  computeUnitLimit : U128
  maxFee : U128
  program : ObjectProgram

def Transaction.code : Borsh Transaction :=
  (u16.pair <| hash32.pair <| u32.pair <| TypedObjectId.code.pair <| TypedObjectId.code.vec.pair <|
    TypedObjectId.code.vec.pair <| u128.pair <| u128.pair ObjectProgram.code).record
    (fun ⟨a, b, c, d, e, f, g, h, i⟩ => (a, b, c, d, e, f, g, h, i)) ↿Transaction.mk fun _ => rfl

structure Block where
  schemaVersion : U16
  context : ProtocolContext
  blockId : Hash
  height : U64
  expectedParentHeight : U64
  expectedParentBlockId : Hash
  expectedParentStateRoot : Hash
  transactions : List Transaction

/-! ## Receipts -/

inductive ReceiptStatus where
  | success
  | reverted
  | outOfResource
  deriving DecidableEq

def ReceiptStatus.code : Borsh ReceiptStatus :=
  Code.byte.through
    (fun
      | .success => 0
      | .reverted => 1
      | .outOfResource => 2)
    (fun
      | 0 => some .success
      | 1 => some .reverted
      | 2 => some .outOfResource
      | _ => none)
    fun status => by cases status <;> rfl

structure ReadSetEntry where
  objectId : TypedObjectId
  observedVersion : U64
  observedValueHash : Hash

def ReadSetEntry.code : Borsh ReadSetEntry :=
  (TypedObjectId.code.pair <| u64.pair hash32).record
    (fun ⟨a, b, c⟩ => (a, b, c)) ↿ReadSetEntry.mk fun _ => rfl

structure WriteSetEntry where
  objectId : TypedObjectId
  priorVersion : U64
  successorVersion : U64
  successorValueHash : Hash

def WriteSetEntry.code : Borsh WriteSetEntry :=
  (TypedObjectId.code.pair <| u64.pair <| u64.pair hash32).record
    (fun ⟨a, b, c, d⟩ => (a, b, c, d)) ↿WriteSetEntry.mk fun _ => rfl

structure ResourceUsage where
  resourceClass : U16
  resourceId : Bytes
  meterId : Bytes
  meterVersion : U32
  amount : U128
  unit : U16
  measurementCommitment : Hash

def ResourceUsage.code : Borsh ResourceUsage :=
  (u16.pair <| bytes.pair <| bytes.pair <| u32.pair <| u128.pair <| u16.pair hash32).record
    (fun ⟨a, b, c, d, e, f, g⟩ => (a, b, c, d, e, f, g)) ↿ResourceUsage.mk fun _ => rfl

structure FeeDelta where
  source : TypedObjectId
  destination : TypedObjectId
  amount : U128

def FeeDelta.code : Borsh FeeDelta :=
  (TypedObjectId.code.pair <| TypedObjectId.code.pair u128).record
    (fun ⟨a, b, c⟩ => (a, b, c)) ↿FeeDelta.mk fun _ => rfl

structure DestinationFeeCredit where
  destination : TypedObjectId
  amount : U128

def DestinationFeeCredit.code : Borsh DestinationFeeCredit :=
  (TypedObjectId.code.pair u128).record
    (fun x => (x.destination, x.amount)) ↿DestinationFeeCredit.mk fun _ => rfl

structure TransactionReceipt where
  schemaVersion : U16
  transactionId : Hash
  transactionIndex : U32
  status : ReceiptStatus
  errorClass : Option U16
  readSet : List ReadSetEntry
  writeSet : List WriteSetEntry
  readSetRoot : Hash
  writeSetRoot : Hash
  stateDeltaRoot : Hash
  postTransactionStateRoot : Hash
  resourceUsage : List ResourceUsage
  feeCharged : U128
  refundAmount : U128
  feeDeltas : List FeeDelta
  conflictSet : List TypedObjectId
  retryCount : U32

def TransactionReceipt.code : Borsh TransactionReceipt :=
  (u16.pair <| hash32.pair <| u32.pair <| ReceiptStatus.code.pair <| u16.option.pair <|
    ReadSetEntry.code.vec.pair <| WriteSetEntry.code.vec.pair <| hash32.pair <| hash32.pair <|
    hash32.pair <| hash32.pair <| ResourceUsage.code.vec.pair <| u128.pair <| u128.pair <|
    FeeDelta.code.vec.pair <| TypedObjectId.code.vec.pair u32).record
    (fun ⟨a, b, c, d, e, f, g, h, i, j, k, l, m, n, o, p, q⟩ => (a, b, c, d, e, f, g, h, i, j, k, l,
      m, n, o, p, q)) ↿TransactionReceipt.mk fun _ => rfl

structure BlockReceipt where
  schemaVersion : U16
  storeId : Hash
  blockId : Hash
  height : U64
  parentStateRoot : Hash
  finalStateRoot : Hash
  receiptsRoot : Hash
  resourceTotalsRoot : Hash
  feeDeltasRoot : Hash
  mvccResolutionRoot : Hash
  transactionCount : U32
  receipts : List TransactionReceipt
  resourceTotals : List ResourceUsage
  aggregatedFeeDeltas : List FeeDelta
  destinationCredits : List DestinationFeeCredit

/-! ## Digests -/

/-- `canonical_bytes`: a vector whose length does not fit `u32` is not written. -/
def canonicalBytes {α : Type} (c : Borsh α) (value : α) : Outcome Bytes :=
  okOr (c.encode value) .nonCanonical "invalid data"

def digestBytes (sha256 : Bytes → Hash) (domain : String) (body : Bytes) : Outcome Hash := do
  let name := Bytes.ofString domain
  require (name ≠ [] ∧ ∀ b ∈ name,
    b < 128) (.coded .invalidBounds "digest domain must be nonempty ASCII")
  require (name.length < 2 ^ 32) (.coded .arithmeticOverflow "domain length overflow")
  pure (sha256 (Bytes.ofNat 4 name.length ++ name ++ body))

def digestValue {α : Type} (sha256 : Bytes → Hash) (domain : String) (c : Borsh α) (value : α) :
    Outcome Hash := do
  let body ← canonicalBytes c value
  digestBytes sha256 domain body

end Trillionnium.Mvcc
