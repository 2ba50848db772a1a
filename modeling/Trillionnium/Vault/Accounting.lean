import Trillionnium.Vault.Operations

/-!
# Accounting of the settlement vault

`Step` says what a call that returns does, and `perform_safe` that every other call leaves the vault
as it was. The accounts of a run (`Accounted`) then follow from the constructors of `Step`.
-/

namespace Trillionnium.Vault

open Lib SettlementVault

namespace SettlementVault
variable {v : SettlementVault} {account other : AccountId} {amount total : U128}
  {requestId : RequestId} {record : LockRecord} {event : VaultEvent}

/-! ## Balances -/

def funds (v : SettlementVault) : Nat := v.balances.sum fun _ amount => amount.toNat

def LockRecord.held (record : LockRecord) : Nat :=
  if record.status = .locked then record.amount.toNat else 0

/-- The sum of the amounts still locked. -/
def held (v : SettlementVault) : Nat := v.locks.sum fun _ record => LockRecord.held record

/-- The vault after `amount` was taken from `account`. -/
def debit (account : AccountId) (amount : U128) (v : SettlementVault) : SettlementVault :=
  pruneZeroBalance account (setBalance account (v.balanceOf account - amount) v)

theorem balanceOf_setBalance : (setBalance account amount v).balanceOf other =
    if account = other then amount else v.balanceOf other := by
  simp only [balanceOf, setBalance, OrdMap.get_insert]
  split <;> rfl

@[simp] theorem balanceOf_orInsertZero :
    (orInsertZero account v).balanceOf other = v.balanceOf other := by
  simp only [balanceOf, orInsertZero, OrdMap.get_insertIfNew]
  split
  · subst_vars
    cases v.balances.get other <;> rfl
  · rfl

@[simp] theorem setBalance_orInsertZero :
    setBalance account amount (orInsertZero account v) = setBalance account amount v := by
  unfold setBalance orInsertZero
  congr 1
  apply OrdMap.ext_get
  intro k
  simp only [OrdMap.get_insert, OrdMap.get_insertIfNew]
  split <;> rfl

/-- Only an absent entry is written by `or_insert`. -/
theorem orInsertZero_of_pos (h : v.balanceOf account ≠ 0) : orInsertZero account v = v := by
  unfold balanceOf at h
  unfold orInsertZero OrdMap.insertIfNew
  cases hb : v.balances.get account with
  | none => exact absurd (by rw [hb]; rfl) h
  | some b => rfl

theorem get_debit : (debit account amount v).balances.get other = if account = other then
    (if v.balanceOf account - amount = 0 then none else some (v.balanceOf account - amount))
    else v.balances.get other := by
  unfold debit pruneZeroBalance
  rw [balanceOf_setBalance, if_pos rfl]
  split
  · simp only [setBalance, OrdMap.get_erase, OrdMap.get_insert]
    split <;> rfl
  · simp only [setBalance, OrdMap.get_insert]

theorem balanceOf_debit_ne (h : account ≠ other) :
    (debit account amount v).balanceOf other = v.balanceOf other := by
  simp only [balanceOf, get_debit, if_neg h]

@[simp] theorem debit_locks : (debit account amount v).locks = v.locks := by
  unfold debit pruneZeroBalance
  split <;> rfl

@[simp] theorem debit_owner : (debit account amount v).owner = v.owner := by
  unfold debit pruneZeroBalance
  split <;> rfl

theorem funds_setBalance (v : SettlementVault) (account : AccountId) (total : U128) :
    (setBalance account total v).funds + (v.balanceOf account).toNat = v.funds + total.toNat := by
  have h := v.balances.sum_insert (k := account) (v := total) fun _ amount => amount.toNat
  unfold funds balanceOf
  cases hb : v.balances.get account <;> simp only [hb] at h <;> exact h

theorem funds_debit (h : amount ≤ v.balanceOf account) :
    (debit account amount v).funds + amount.toNat = v.funds := by
  have hset := funds_setBalance v account (v.balanceOf account - amount)
  have hle := BitVec.le_def.mp h
  have hrest : (v.balanceOf account - amount).toNat = (v.balanceOf account).toNat - amount.toNat :=
    BitVec.toNat_sub_of_le h
  -- pruning removes an entry that counts for nothing
  have hprune : (debit account amount v).funds =
      (setBalance account (v.balanceOf account - amount) v).funds := by
    unfold debit pruneZeroBalance
    rw [balanceOf_setBalance, if_pos rfl]
    split
    · next hzero =>
      have herase := (setBalance account (v.balanceOf account - amount) v).balances.sum_erase
        (k := account) fun _ amount => amount.toNat
      simp only [setBalance, OrdMap.get_insert_self, Option.elim_some, hzero] at herase
      simpa [funds, setBalance, hzero] using herase
    · rfl
  omega

theorem held_setLock (v : SettlementVault) (requestId : RequestId) (record : LockRecord) :
    (setLock requestId record v).held + (v.locks.get requestId).elim 0 LockRecord.held =
      v.held + LockRecord.held record :=
  v.locks.sum_insert _

/-! ## Effects of the checks and credits -/

theorem creditBalance_run (h : total.toNat = (v.balanceOf account).toNat + amount.toNat) :
    (creditBalance account amount).run v = .ok () (setBalance account total v) := by
  have hsum : checkedAdd (v.balanceOf account) amount VaultError.balanceOverflow = .ok total :=
    checkedAdd_eq_ok.mpr h
  unfold creditBalance
  rw [run_modify_bind, run_get_bind, balanceOf_orInsertZero, hsum, run_lift_ok_bind,
    ← setBalance_orInsertZero]
  rfl

/-- A credit that overflows finds a positive entry, so it has written nothing before it fails. -/
theorem creditBalance_safe : Safe (creditBalance account amount) v fun _ v' =>
    ∃ total, total.toNat = (v.balanceOf account).toNat + amount.toNat ∧
      v' = setBalance account total v := by
  by_cases h : (v.balanceOf account).toNat + amount.toNat < 2 ^ 128
  · have htotal : (v.balanceOf account + amount).toNat =
        (v.balanceOf account).toNat + amount.toNat := by
      rw [BitVec.toNat_add, Nat.mod_eq_of_lt h]
    exact .of_run (creditBalance_run htotal) ⟨_, htotal, rfl⟩
  · have hpos : v.balanceOf account ≠ 0 := by
      intro hzero
      rw [hzero] at h
      have := amount.isLt
      simp at h
      omega
    have hfail : checkedAdd (v.balanceOf account) amount VaultError.balanceOverflow =
        .error .balanceOverflow := if_neg h
    unfold creditBalance
    rw [Safe, SafeUnless, run_modify_bind, run_get_bind, orInsertZero_of_pos hpos, hfail]
    exact .inr rfl

section
variable {α : Type} {f : Unit → Operation α} {Q : α → SettlementVault → Prop}

theorem ensureOwner_bind (h : caller = v.owner → Safe (f ()) v Q) :
    Safe (ensureOwner caller >>= f) v Q := .ensure_bind h

theorem ensureNotPaused_bind (h : v.paused = false → Safe (f ()) v Q) :
    Safe (ensureNotPaused >>= f) v Q := .ensure_bind h

theorem ensureRequestId_bind (h : Safe (f ()) v Q) : Safe (ensureRequestId requestId >>= f) v Q :=
  .ensure_bind fun _ => h

theorem ensureCreditableBalance_bind (h : ∀ total : U128,
    total.toNat = (v.balanceOf account).toNat + amount.toNat → Safe (f ()) v Q) :
    Safe (ensureCreditableBalance account amount >>= f) v Q := by
  unfold ensureCreditableBalance
  rw [bind_assoc]
  refine .get_bind ?_
  rw [bind_assoc]
  exact .lift_bind fun total htotal => h total (checkedAdd_eq_ok.mp htotal)

theorem openLock_bind {f : LockRecord → Operation α} (h : ∀ record,
    v.locks.get requestId = some record → record.status = .locked → Safe (f record) v Q) :
    Safe (openLock requestId >>= f) v Q := by
  unfold openLock
  rw [bind_assoc]
  refine .get_bind ?_
  rw [bind_assoc]
  refine .lift_bind fun record hrecord => ?_
  rw [bind_assoc]
  exact .ensure_bind fun hstatus => h record (getOr_eq_ok.mp hrecord) hstatus

end

theorem setStatus_run (h : v.locks.get requestId = some record) :
    (setStatus requestId status).run v =
      .ok () (setLock requestId { record with status := status } v) := by
  unfold setStatus
  rw [run_get_bind, h]
  rfl

theorem moveBetween_safe (hne : source ≠ target) :
    Safe (moveBetween source target amount) v fun _ v' =>
      ∃ total, total.toNat = (v.balanceOf target).toNat + amount.toNat ∧
        v' = setBalance target total (debit source amount v) := by
  unfold moveBetween
  refine ensureCreditableBalance_bind fun total htotal => ?_
  refine .of_run (?_ : _ = EStateM.Result.ok () (setBalance target total (debit source amount v)))
    ⟨total, htotal, rfl⟩
  rw [run_modify_bind, run_modify_bind, run_modify_bind, balanceOf_orInsertZero,
    setBalance_orInsertZero]
  have hkept : (debit source amount v).balanceOf target = v.balanceOf target :=
    balanceOf_debit_ne hne
  exact creditBalance_run (hkept ▸ htotal)

end SettlementVault

/-! ## What a call does -/

/-- The effect of a call that returns. -/
inductive Step : SettlementVault → Call → SettlementVault → Prop
  | deposit {v : SettlementVault} {account : AccountId} {amount total : U128} :
      v.paused = false → amount ≠ 0 → total.toNat = (v.balanceOf account).toNat + amount.toNat →
      Step v (.deposit v.owner account amount)
        (push (.deposited v.owner account amount) (setBalance account total v))
  | lock {v : SettlementVault} {requestId : RequestId} {account : AccountId} {amount : U128} :
      v.paused = false → amount ≠ 0 → v.locks.get requestId = none →
      amount ≤ v.balanceOf account →
      Step v (.lock v.owner requestId account amount)
        (push (.locked v.owner requestId account amount)
          (setLock requestId ⟨account, amount, .locked⟩ (debit account amount v)))
  | release {v : SettlementVault} {requestId : RequestId} {record : LockRecord} {total : U128} :
      v.paused = false → v.locks.get requestId = some record → record.status = .locked →
      total.toNat = (v.balanceOf record.account).toNat + record.amount.toNat →
      Step v (.release v.owner requestId)
        (push (.released v.owner requestId record.account record.amount)
          (setBalance record.account total
            (setLock requestId { record with status := .released } v)))
  | slash {v : SettlementVault} {requestId : RequestId} {beneficiary : AccountId}
      {record : LockRecord} {total : U128} :
      v.paused = false → v.locks.get requestId = some record → record.status = .locked →
      beneficiary ≠ record.account →
      total.toNat = (v.balanceOf beneficiary).toNat + record.amount.toNat →
      Step v (.slash v.owner requestId beneficiary)
        (push (.slashed v.owner requestId record.account beneficiary record.amount)
          (setBalance beneficiary total
            (setLock requestId { record with status := .slashed } v)))
  | transferSelf {v : SettlementVault} {account : AccountId} {amount : U128} :
      v.paused = false →
      Step v (.transfer v.owner account account amount)
        (push (.transferred v.owner account account amount) v)
  | transfer {v : SettlementVault} {source target : AccountId} {amount total : U128} :
      v.paused = false → amount ≠ 0 → amount ≤ v.balanceOf source → source ≠ target →
      total.toNat = (v.balanceOf target).toNat + amount.toNat →
      Step v (.transfer v.owner source target amount)
        (push (.transferred v.owner source target amount)
          (setBalance target total (debit source amount v)))
  | pause {v : SettlementVault} : v.paused = false →
      Step v (.pause v.owner) (push (.paused v.owner) { v with paused := true })
  | unpause {v : SettlementVault} : v.paused = true →
      Step v (.unpause v.owner) (push (.unpaused v.owner) { v with paused := false })

section
variable {v : SettlementVault}

/-- Two writes after the checks: the status of a lock and the credit of what it held. -/
theorem settle_run (hrecord : v.locks.get requestId = some record)
    (htotal : total.toNat = (v.balanceOf account).toNat + record.amount.toNat) :
    (do setStatus requestId status
        creditBalance account record.amount
        modify (push event) : Operation Unit).run v =
      .ok () (push event (setBalance account total
        (setLock requestId { record with status := status } v))) := by
  have hcredit : (creditBalance account record.amount).run
      (setLock requestId { record with status := status } v) = _ := creditBalance_run htotal
  rw [run_bind_ok (setStatus_run hrecord), run_bind_ok hcredit]
  rfl

/-- A call that fails leaves the vault as it was. -/
theorem perform_safe (call : Call) : Safe call.perform v fun _ v' => Step v call v' := by
  cases call with
  | deposit caller account amount =>
    refine ensureOwner_bind fun howner => ensureNotPaused_bind fun hpaused =>
      .ensure_bind fun hamount => ?_
    subst howner
    refine creditBalance_safe.bind fun _ v' hcredit => ?_
    obtain ⟨total, htotal, rfl⟩ := hcredit
    exact .of_modify (.deposit hpaused hamount htotal)
  | lock caller requestId account amount =>
    refine ensureOwner_bind fun howner => ensureNotPaused_bind fun hpaused =>
      ensureRequestId_bind <| .ensure_bind fun hamount => .ensure_bind fun hnew =>
      .ensure_bind fun hle => .get_bind <| .lift_bind fun balance hbalance => ?_
    subst howner
    have hbalance : v.balanceOf account = balance := by
      rw [balanceOf, getOr_eq_ok.mp hbalance]
      rfl
    subst hbalance
    exact .of_run rfl (.lock hpaused hamount hnew hle)
  | release caller requestId =>
    refine ensureOwner_bind fun howner => ensureNotPaused_bind fun hpaused =>
      ensureRequestId_bind <| openLock_bind fun record hrecord hlocked =>
      ensureCreditableBalance_bind fun total htotal => ?_
    subst howner
    exact .of_run (settle_run hrecord htotal) (.release hpaused hrecord hlocked htotal)
  | slash caller requestId beneficiary =>
    refine ensureOwner_bind fun howner => ensureNotPaused_bind fun hpaused =>
      ensureRequestId_bind <| openLock_bind fun record hrecord hlocked =>
      .ensure_bind fun hbeneficiary => ensureCreditableBalance_bind fun total htotal => ?_
    subst howner
    exact .of_run (settle_run hrecord htotal)
      (.slash hpaused hrecord hlocked hbeneficiary.2 htotal)
  | transfer caller source target amount =>
    refine ensureOwner_bind fun howner => ensureNotPaused_bind fun hpaused =>
      .ensure_bind fun hamount => .ensure_bind fun _ => .ensure_bind fun hle => ?_
    subst howner
    unfold moveFunds
    split
    · next heq =>
      subst heq
      exact .of_run rfl (.transferSelf hpaused)
    · next hne =>
      refine (moveBetween_safe hne).bind fun _ v' hmove => ?_
      obtain ⟨total, htotal, rfl⟩ := hmove
      exact .of_modify (.transfer hpaused hamount hle hne htotal)
  | pause caller =>
    refine ensureOwner_bind fun howner => .ensure_bind fun hpaused => ?_
    subst howner
    exact .of_run rfl (.pause hpaused)
  | unpause caller =>
    refine ensureOwner_bind fun howner => .ensure_bind fun hpaused => ?_
    subst howner
    exact .of_run rfl (.unpause hpaused)

end

/-! ## Runs -/

/-- Whether the call returns `Ok`. -/
def accepts (v : SettlementVault) (call : Call) : Bool :=
  match call.perform.run v with
  | .ok _ _ => true
  | .error _ _ => false

def next (v : SettlementVault) (call : Call) : SettlementVault :=
  match call.perform.run v with
  | .ok _ v' => v'
  | .error _ v' => v'

def after (v : SettlementVault) (calls : List Call) : SettlementVault := calls.foldl next v

/-- The calls of the sequence that returned `Ok`. -/
def applied : SettlementVault → List Call → List Call
  | _, [] => []
  | v, call :: calls => (if accepts v call then [call] else []) ++ applied (next v call) calls

def deposited (calls : List Call) : Nat :=
  (calls.map fun
    | .deposit _ _ amount => amount.toNat
    | _ => 0).sum

/-- A lock call for the request. -/
def Call.opens (requestId : RequestId) : Call → Bool
  | .lock _ id _ _ => id = requestId
  | _ => false

/-- A call that takes the request's lock out of `Locked`. -/
def Call.closes (requestId : RequestId) : Call → Bool
  | .release _ id => id = requestId
  | .slash _ id _ => id = requestId
  | _ => false

variable {v v' : SettlementVault} {call : Call}

theorem accepts_step (h : accepts v call = true) : Step v call (next v call) := by
  have hsafe := perform_safe (v := v) call
  unfold accepts at h
  unfold next
  split at h
  · next hrun => exact hsafe.run_ok hrun
  · cases h

theorem next_rejected (h : accepts v call = false) : next v call = v := by
  have hsafe := perform_safe (v := v) call
  unfold accepts at h
  unfold next
  split at h
  · cases h
  · next hrun => exact (hsafe.run_error hrun).resolve_left id

/-- What holds before a call holds after it when every effect keeps it. -/
theorem next_keeps {P : SettlementVault → Prop} (hstep : ∀ v', Step v call v' → P v') (h : P v) :
    P (next v call) := by
  cases ha : accepts v call with
  | true => exact hstep _ (accepts_step ha)
  | false => exact (next_rejected ha).symm ▸ h

/-! ## Locks -/

/-- A record keeps its account and amount, and its status once it is not `Locked`. -/
def LockRecord.Follows (old new : LockRecord) : Prop :=
  new.account = old.account ∧ new.amount = old.amount ∧ (old.status ≠ .locked → new = old)

theorem LockRecord.Follows.refl (record : LockRecord) : record.Follows record :=
  ⟨rfl, rfl, fun _ => rfl⟩

theorem LockRecord.Follows.trans {a b c : LockRecord} (h : a.Follows b) (h' : b.Follows c) :
    a.Follows c := by
  refine ⟨h'.1.trans h.1, h'.2.1.trans h.2.1, fun ha => ?_⟩
  obtain rfl := h.2.2 ha
  exact h'.2.2 ha

/-- A call leaves the locks, adds one for a new request or closes one. -/
theorem Step.locks_cases (h : Step v call v') :
    (v'.locks = v.locks ∧ ∀ id, call.opens id = false ∧ call.closes id = false) ∨
    (∃ requestId record, v.locks.get requestId = none ∧ record.amount ≠ 0 ∧
      record.status = .locked ∧
      v'.locks = v.locks.insert requestId record ∧
      ∀ id, call.opens id = decide (requestId = id) ∧ call.closes id = false) ∨
    ∃ requestId record status, v.locks.get requestId = some record ∧ record.status = .locked ∧
      status ≠ .locked ∧ v'.locks = v.locks.insert requestId { record with status } ∧
      ∀ id, call.opens id = false ∧ call.closes id = decide (requestId = id) := by
  cases h with
  | @lock requestId account amount _ hamount hnew _ =>
    exact .inr (.inl ⟨requestId, ⟨account, amount, .locked⟩, hnew, hamount,
      rfl, by simp [push, setLock], fun _ => ⟨rfl, rfl⟩⟩)
  | release _ hrecord hlocked _ | slash _ hrecord hlocked _ _ =>
    exact .inr (.inr ⟨_, _, _, hrecord, hlocked, by decide, rfl, fun _ => ⟨rfl, rfl⟩⟩)
  | transfer => exact .inl ⟨by simp [push, setBalance], fun _ => ⟨rfl, rfl⟩⟩
  | _ => exact .inl ⟨rfl, fun _ => ⟨rfl, rfl⟩⟩

theorem Step.locks (h : Step v call v') : OrdMap.Extends LockRecord.Follows v.locks v'.locks := by
  obtain ⟨hlocks, -⟩ | ⟨_, _, hnew, -, -, hlocks, -⟩ | ⟨_, _, _, hold, hlocked, -, hlocks, -⟩ :=
    h.locks_cases
  · exact hlocks ▸ .refl LockRecord.Follows.refl
  · exact hlocks ▸ .insert_new LockRecord.Follows.refl hnew
  · exact hlocks ▸ .insert_over LockRecord.Follows.refl hold ⟨rfl, rfl, fun h => absurd hlocked h⟩

theorem after_locks (calls : List Call) :
    OrdMap.Extends LockRecord.Follows v.locks (after v calls).locks := by
  induction calls generalizing v with
  | nil => exact .refl LockRecord.Follows.refl
  | cons call calls ih =>
    have hnext : OrdMap.Extends LockRecord.Follows v.locks (next v call).locks :=
      next_keeps (P := fun v' => OrdMap.Extends LockRecord.Follows v.locks v'.locks)
        (fun _ => Step.locks) (.refl LockRecord.Follows.refl)
    exact hnext.trans (fun _ _ _ => LockRecord.Follows.trans) ih

/-! ## Accounts -/

theorem deposited_append : deposited (calls ++ [call]) = deposited calls + deposited [call] := by
  simp [deposited]

theorem Step.funds (h : Step v call v') :
    v'.funds + v'.held = v.funds + v.held + deposited [call] := by
  cases h with
  | @deposit account amount total _ _ htotal =>
    have hset := funds_setBalance v account total
    change (setBalance account total v).funds + v.held = v.funds + v.held + (amount.toNat + 0)
    omega
  | @lock id account amount _ _ hnew hle =>
    have hdebit := funds_debit hle
    have hlock := held_setLock (debit account amount v) id ⟨account, amount, .locked⟩
    have hheld : (debit account amount v).held = v.held := by simp [held]
    rw [debit_locks, hnew, hheld] at hlock
    change (debit account amount v).funds + (setLock id _ (debit account amount v)).held =
      v.funds + v.held + 0
    simp only [Option.elim_none, LockRecord.held, if_true] at hlock
    omega
  | @release id record total _ hrecord hlocked htotal =>
    have hset := funds_setBalance v record.account total
    have hlock := held_setLock v id { record with status := .released }
    simp only [hrecord, Option.elim_some, LockRecord.held, hlocked, if_true, reduceCtorEq,
      if_false] at hlock
    change (setBalance record.account total v).funds + (setLock id _ v).held = v.funds + v.held + 0
    omega
  | @slash id beneficiary record total _ hrecord hlocked _ htotal =>
    have hset := funds_setBalance v beneficiary total
    have hlock := held_setLock v id { record with status := .slashed }
    simp only [hrecord, Option.elim_some, LockRecord.held, hlocked, if_true, reduceCtorEq,
      if_false] at hlock
    change (setBalance beneficiary total v).funds + (setLock id _ v).held = v.funds + v.held + 0
    omega
  | @transfer source target amount total _ _ hle hne htotal =>
    have hdebit := funds_debit hle
    have hset := funds_setBalance (debit source amount v) target total
    have hheld : (debit source amount v).held = v.held := by simp [held]
    rw [balanceOf_debit_ne hne] at hset
    change (setBalance target total (debit source amount v)).funds + (debit source amount v).held =
      v.funds + v.held + 0
    omega
  | _ => rfl

/-- A vault without zero balances. -/
def NoZero (v : SettlementVault) : Prop := ∀ account, v.balances.get account ≠ some 0

theorem NoZero.setBalance (h : NoZero v) (ht : total ≠ 0) :
    NoZero (setBalance account total v) := by
  intro other
  simp only [SettlementVault.setBalance, OrdMap.get_insert]
  split
  · exact fun hzero => ht (Option.some.inj hzero)
  · exact h other

theorem NoZero.debit (h : NoZero v) : NoZero (debit account amount v) := by
  intro other
  rw [get_debit]
  split
  · split
    · simp
    · next hrest => exact fun hzero => hrest (Option.some.inj hzero)
  · exact h other

theorem ne_zero_of_credit {a b total : U128} (hb : b ≠ 0) (h : total.toNat = a.toNat + b.toNat) :
    total ≠ 0 := by
  rintro rfl
  have hb0 : b.toNat = 0 := by
    simp only [BitVec.ofNat_eq_ofNat, BitVec.toNat_ofNat, Nat.zero_mod] at h
    omega
  exact hb (BitVec.eq_of_toNat_eq (by simpa using hb0))

/-- Locks are never empty. -/
def Filled (v : SettlementVault) : Prop :=
  ∀ id record, v.locks.get id = some record → record.amount ≠ 0

variable (h : Step v call v')
include h

theorem Step.filled (hf : Filled v) : Filled v' := by
  intro id record hrecord
  obtain ⟨hlocks, -⟩ | ⟨_, _, -, hamount, -, hlocks, -⟩ | ⟨_, _, _, hold, -, -, hlocks, -⟩ :=
    h.locks_cases <;> rw [hlocks] at hrecord
  · exact hf id record hrecord
  · rcases OrdMap.get_insert_cases hrecord with ⟨-, rfl⟩ | ⟨-, hother⟩
    · exact hamount
    · exact hf _ _ hother
  · rcases OrdMap.get_insert_cases hrecord with ⟨-, rfl⟩ | ⟨-, hother⟩
    · exact (hf _ _ hold :)
    · exact hf _ _ hother

theorem Step.noZero (hf : Filled v) (hz : NoZero v) : NoZero v' := by
  cases h with
  | deposit _ hamount htotal => exact hz.setBalance (ne_zero_of_credit hamount htotal)
  | lock => exact hz.debit
  | release _ hrecord _ htotal | slash _ hrecord _ _ htotal =>
    exact NoZero.setBalance (v := v) hz (ne_zero_of_credit (hf _ _ hrecord) htotal)
  | transfer _ hamount _ _ htotal => exact hz.debit.setBalance (ne_zero_of_credit hamount htotal)
  | _ => exact hz

/-- The number of lock calls that made the record of the request. -/
def openings (v : SettlementVault) (id : RequestId) : Nat := (v.locks.get id).elim 0 fun _ => 1

/-- The number of calls that took the lock of the request out of `Locked`. -/
def closings (v : SettlementVault) (id : RequestId) : Nat :=
  (v.locks.get id).elim 0 fun record => if record.status = .locked then 0 else 1

theorem Step.openings (id : RequestId) :
    openings v' id = openings v id + [call].countP (Call.opens id) := by
  rw [List.countP_singleton, Vault.openings, Vault.openings]
  obtain ⟨hlocks, hcall⟩ | ⟨requestId, _, hnew, -, -, hlocks, hcall⟩ |
    ⟨requestId, _, _, hold, -, -, hlocks, hcall⟩ := h.locks_cases
  · simp [hlocks, hcall]
  · rcases eq_or_ne requestId id with rfl | hid <;> simp [*, OrdMap.get_insert]
  · rcases eq_or_ne requestId id with rfl | hid <;> simp [*, OrdMap.get_insert]

theorem Step.closings (id : RequestId) :
    closings v' id = closings v id + [call].countP (Call.closes id) := by
  rw [List.countP_singleton, Vault.closings, Vault.closings]
  obtain ⟨hlocks, hcall⟩ | ⟨requestId, _, hnew, -, hlocked, hlocks, hcall⟩ |
    ⟨requestId, _, _, hold, hlocked, hclosed, hlocks, hcall⟩ := h.locks_cases
  · simp [hlocks, hcall]
  · rcases eq_or_ne requestId id with rfl | hid <;> simp [*, OrdMap.get_insert]
  · rcases eq_or_ne requestId id with rfl | hid <;> simp [*, OrdMap.get_insert]

theorem Step.owner : v'.owner = v.owner := by
  cases h <;> simp [push, setBalance, setLock]

omit h

/-- The accounts of a vault after the calls `done` were applied. -/
structure Accounted (v : SettlementVault) (done : List Call) : Prop where
  conserved : v.funds + v.held = deposited done
  noZero : NoZero v
  filled : Filled v
  opened : ∀ id, done.countP (Call.opens id) = openings v id
  closed : ∀ id, done.countP (Call.closes id) = closings v id

theorem Accounted.new {owner : AccountId} : Accounted (.new owner) [] where
  conserved := rfl
  noZero _ h := by cases h
  filled _ _ h := by cases h
  opened _ := rfl
  closed _ := rfl

theorem Accounted.step (h : Accounted v done) (hs : Step v call v') :
    Accounted v' (done ++ [call]) where
  conserved := by rw [hs.funds, h.conserved, deposited_append]
  noZero := hs.noZero h.filled h.noZero
  filled := hs.filled h.filled
  opened id := by rw [List.countP_append, h.opened, hs.openings]
  closed id := by rw [List.countP_append, h.closed, hs.closings]

theorem Accounted.after (h : Accounted v done) (calls : List Call) :
    Accounted (after v calls) (done ++ applied v calls) := by
  induction calls generalizing v done with
  | nil => simpa [Vault.after, applied] using h
  | cons call calls ih =>
    rw [applied, ← List.append_assoc]
    refine ih ?_
    cases ha : accepts v call with
    | true => exact h.step (accepts_step ha)
    | false => simpa [next_rejected ha] using h

theorem after_owner {calls : List Call} : (after v calls).owner = v.owner := by
  induction calls generalizing v with
  | nil => rfl
  | cons call calls ih =>
    have hnext : (next v call).owner = v.owner :=
      next_keeps (P := fun v' => v'.owner = v.owner) (fun _ => Step.owner) rfl
    exact (ih (v := next v call)).trans hnext

/-- The request of a stored lock cannot be locked again. -/
theorem lock_rejected {id : RequestId} (h : v.locks.get id ≠ none) :
    accepts v (.lock caller id account amount) = false := by
  rw [← Bool.not_eq_true]
  intro ha
  generalize hnext : next v _ = v' at *
  cases hnext ▸ accepts_step ha with
  | lock _ _ hnew _ => exact h hnew

/-- In a paused vault only the owner's `unpause` is accepted. -/
theorem accepts_paused (hp : v.paused = true) (ha : accepts v call = true) :
    call = .unpause v.owner := by
  generalize hnext : next v call = v' at *
  cases hnext ▸ accepts_step ha with
  | unpause => rfl
  | deposit h | lock h | release h | slash h | transferSelf h | transfer h | pause h =>
    rw [hp] at h
    cases h

/-- The accounting of every run of the vault: the balances and the open locks add up to the
deposits, no zero balance is stored, each request is locked once and settled once, a record that
left `Locked` stays as it is, a failed call changes nothing, and a paused vault moves only by the
owner's `unpause`. -/
theorem settlement_accounting (owner : AccountId) (calls : List Call) :
    let v := after (.new owner) calls
    let done := applied (.new owner) calls
    v.funds + v.held = deposited done ∧
    (∀ account, v.balances.get account ≠ some 0) ∧
    (∀ id, done.countP (Call.opens id) ≤ 1 ∧ done.countP (Call.closes id) ≤ 1) ∧
    (∀ id record, v.locks.get id = some record → record.status ≠ .locked →
      ∀ later, (after v later).locks.get id = some record) ∧
    (∀ id, v.locks.get id ≠ none → ∀ later caller account amount,
      accepts (after v later) (.lock caller id account amount) = false) ∧
    (∀ call, accepts v call = false → next v call = v) ∧
    (v.paused = true → ∀ call, next v call ≠ v → call = .unpause owner) := by
  intro v done
  have hacc : Accounted v done := Accounted.new.after calls
  have howner : v.owner = owner := after_owner
  refine ⟨hacc.conserved, hacc.noZero, fun id => ⟨?_, ?_⟩, ?_, ?_, fun _ => next_rejected, ?_⟩
  · rw [hacc.opened, openings]
    cases v.locks.get id <;> simp
  · rw [hacc.closed, closings]
    cases v.locks.get id with
    | none => simp
    | some record => dsimp; split <;> simp
  · intro id record hrecord hstatus later
    obtain ⟨record', hrecord', hfollows⟩ := after_locks later id record hrecord
    rw [hrecord', hfollows.2.2 hstatus]
  · intro id hid later caller account amount
    obtain ⟨record, hrecord⟩ := Option.ne_none_iff_exists'.mp hid
    obtain ⟨record', hrecord', -⟩ := after_locks later id record hrecord
    exact lock_rejected (by simp [hrecord'])
  · intro hpaused call hchange
    have haccepts : accepts v call = true := by
      by_contra h
      exact hchange (next_rejected (by simpa using h))
    rw [← howner]
    exact accepts_paused hpaused haccepts

end Trillionnium.Vault
