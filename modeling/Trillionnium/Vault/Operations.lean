import Mathlib.Data.String.Basic
import Trillionnium.Lib.Checked
import Trillionnium.Lib.Mutable
import Trillionnium.Lib.OrdMap
import Trillionnium.Lib.Text

/-!
# The settlement vault

The operations of `SettlementVault`. Each one takes the vault by mutable reference and may fail
between two writes, so it is an `EStateM` computation that keeps what was written: `entry` of the
balance map stores a zero before the addition that may overflow.
-/

namespace Trillionnium.Vault

open Lib Lib.Text

abbrev AccountId := String
abbrev RequestId := String

inductive VaultError
  | unauthorized | paused | alreadyPaused | notPaused | invalidAmount | invalidBeneficiary
  | invalidRequestId | insufficientBalance | duplicateRequest | requestNotFound
  | invalidStateTransition | balanceOverflow

inductive VaultEvent
  | deposited (caller account : AccountId) (amount : U128)
  | locked (caller : AccountId) (requestId : RequestId) (account : AccountId) (amount : U128)
  | released (caller : AccountId) (requestId : RequestId) (account : AccountId) (amount : U128)
  | slashed (caller : AccountId) (requestId : RequestId) (account beneficiary : AccountId)
      (amount : U128)
  | transferred (caller source target : AccountId) (amount : U128)
  | paused (caller : AccountId)
  | unpaused (caller : AccountId)

inductive LockStatus
  | locked | released | slashed
  deriving DecidableEq

structure LockRecord where
  account : AccountId
  amount : U128
  status : LockStatus

structure SettlementVault where
  owner : AccountId
  paused : Bool
  balances : OrdMap AccountId U128
  locks : OrdMap RequestId LockRecord
  auditLog : List VaultEvent

abbrev Operation := EStateM VaultError SettlementVault

namespace SettlementVault

def new (owner : AccountId) : SettlementVault := ⟨owner, false, ∅, ∅, []⟩

def balanceOf (v : SettlementVault) (account : AccountId) : U128 := (v.balances.get account).getD 0

/-! ## Writes -/

def setBalance (account : AccountId) (amount : U128) (v : SettlementVault) : SettlementVault :=
  { v with balances := v.balances.insert account amount }

/-- `balances.entry(account).or_insert(0)` -/
def orInsertZero (account : AccountId) (v : SettlementVault) : SettlementVault :=
  { v with balances := v.balances.insertIfNew account 0 }

def setLock (requestId : RequestId) (lock : LockRecord) (v : SettlementVault) : SettlementVault :=
  { v with locks := v.locks.insert requestId lock }

def push (event : VaultEvent) (v : SettlementVault) : SettlementVault :=
  { v with auditLog := v.auditLog ++ [event] }

def pruneZeroBalance (account : AccountId) (v : SettlementVault) : SettlementVault :=
  if v.balanceOf account = 0 then { v with balances := v.balances.erase account } else v

/-! ## Checks and credits -/

def ensureOwner (caller : AccountId) : Operation Unit :=
  ensure (fun v => caller = v.owner) .unauthorized

def ensureNotPaused : Operation Unit := ensure (fun v => v.paused = false) .paused

def ensureRequestId (requestId : RequestId) : Operation Unit :=
  ensure (fun _ => trim requestId ≠ "" ∧ requestId = trim requestId) .invalidRequestId

def ensureCreditableBalance (account : AccountId) (amount : U128) : Operation Unit := do
  let _ ← lift (checkedAdd ((← get).balanceOf account) amount .balanceOverflow)

def creditBalance (account : AccountId) (amount : U128) : Operation Unit := do
  modify (orInsertZero account)
  let total ← lift (checkedAdd ((← get).balanceOf account) amount .balanceOverflow)
  modify (setBalance account total)

/-- The lock of a request that has not been released or slashed. -/
def openLock (requestId : RequestId) : Operation LockRecord := do
  let lock ← lift (getOr ((← get).locks.get requestId) .requestNotFound)
  ensure (fun _ => lock.status = .locked) .invalidStateTransition
  pure lock

/-- `locks.get_mut(request_id)` and the new status. -/
def setStatus (requestId : RequestId) (status : LockStatus) : Operation Unit := do
  let lock ← lift (getOr ((← get).locks.get requestId) .requestNotFound)
  modify (setLock requestId { lock with status := status })

/-! ## Operations -/

def deposit (caller account : AccountId) (amount : U128) : Operation Unit := do
  ensureOwner caller
  ensureNotPaused
  ensure (fun _ => amount ≠ 0) .invalidAmount
  creditBalance account amount
  modify (push (.deposited caller account amount))

def lock (caller : AccountId) (requestId : RequestId) (account : AccountId) (amount : U128) :
    Operation Unit := do
  ensureOwner caller
  ensureNotPaused
  ensureRequestId requestId
  ensure (fun _ => amount ≠ 0) .invalidAmount
  ensure (fun v => v.locks.get requestId = none) .duplicateRequest
  ensure (fun v => amount ≤ v.balanceOf account) .insufficientBalance
  let balance ← lift (getOr ((← get).balances.get account) .insufficientBalance)
  modify (setBalance account (balance - amount))
  modify (pruneZeroBalance account)
  modify (setLock requestId ⟨account, amount, .locked⟩)
  modify (push (.locked caller requestId account amount))

def release (caller : AccountId) (requestId : RequestId) : Operation Unit := do
  ensureOwner caller
  ensureNotPaused
  ensureRequestId requestId
  let lock ← openLock requestId
  ensureCreditableBalance lock.account lock.amount
  setStatus requestId .released
  creditBalance lock.account lock.amount
  modify (push (.released caller requestId lock.account lock.amount))

def slash (caller : AccountId) (requestId : RequestId) (beneficiary : AccountId) :
    Operation Unit := do
  ensureOwner caller
  ensureNotPaused
  ensureRequestId requestId
  let lock ← openLock requestId
  ensure (fun _ => trim beneficiary ≠ "" ∧ beneficiary ≠ lock.account) .invalidBeneficiary
  ensureCreditableBalance beneficiary lock.amount
  setStatus requestId .slashed
  creditBalance beneficiary lock.amount
  modify (push (.slashed caller requestId lock.account beneficiary lock.amount))

/-- The part of `transfer` between two different accounts. -/
def moveBetween (source target : AccountId) (amount : U128) : Operation Unit := do
  ensureCreditableBalance target amount
  modify (orInsertZero source)
  modify fun v => setBalance source (v.balanceOf source - amount) v
  modify (pruneZeroBalance source)
  creditBalance target amount

/-- A transfer to oneself moves nothing, but is logged. -/
def moveFunds (source target : AccountId) (amount : U128) : Operation Unit :=
  if source = target then pure () else moveBetween source target amount

def transfer (caller source target : AccountId) (amount : U128) : Operation Unit := do
  ensureOwner caller
  ensureNotPaused
  ensure (fun _ => amount ≠ 0) .invalidAmount
  ensure (fun _ => trim target ≠ "") .invalidBeneficiary
  ensure (fun v => amount ≤ v.balanceOf source) .insufficientBalance
  moveFunds source target amount
  modify (push (.transferred caller source target amount))

def pause (caller : AccountId) : Operation Unit := do
  ensureOwner caller
  ensure (fun v => v.paused = false) .alreadyPaused
  modify fun v => push (.paused caller) { v with paused := true }

def unpause (caller : AccountId) : Operation Unit := do
  ensureOwner caller
  ensure (fun v => v.paused = true) .notPaused
  modify fun v => push (.unpaused caller) { v with paused := false }

end SettlementVault

inductive Call
  | deposit (caller account : AccountId) (amount : U128)
  | lock (caller : AccountId) (requestId : RequestId) (account : AccountId) (amount : U128)
  | release (caller : AccountId) (requestId : RequestId)
  | slash (caller : AccountId) (requestId : RequestId) (beneficiary : AccountId)
  | transfer (caller source target : AccountId) (amount : U128)
  | pause (caller : AccountId)
  | unpause (caller : AccountId)

def Call.perform : Call → Operation Unit
  | .deposit caller account amount => SettlementVault.deposit caller account amount
  | .lock caller requestId account amount => SettlementVault.lock caller requestId account amount
  | .release caller requestId => SettlementVault.release caller requestId
  | .slash caller requestId beneficiary => SettlementVault.slash caller requestId beneficiary
  | .transfer caller source target amount => SettlementVault.transfer caller source target amount
  | .pause caller => SettlementVault.pause caller
  | .unpause caller => SettlementVault.unpause caller

end Trillionnium.Vault
