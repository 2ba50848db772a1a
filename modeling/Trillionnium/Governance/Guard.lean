import Mathlib.Data.String.Basic
import Mathlib.Data.Finset.Basic
import Trillionnium.Lib.Checked
import Trillionnium.Lib.Mutable
import Trillionnium.Lib.OrdMap

/-!
# The governance guard

The methods of `GovernanceGuard`: proposals wait for a timelock before an executor may apply them,
and guardians may pause the system at once. Each method takes the guard by mutable reference and may
fail between two writes, so it is an `EStateM` computation that keeps what was written.
-/

namespace Trillionnium.Governance

open Lib

abbrev ProposalId := U64

inductive ProposalStatus
  | pending | queued | executed | cancelled
  deriving DecidableEq

inductive ProposalKind
  | paramChange | emergencyUnpause
  deriving DecidableEq

structure Proposal where
  id : ProposalId
  kind : ProposalKind
  proposer : String
  executor : Option String
  eta : U64
  paramKey : String
  oldValue : String
  newValue : String
  baseVersion : Option U64
  reasonHash : String
  status : ProposalStatus
  executedAt : Option U64

structure BridgeState where
  govParams : OrdMap String String
  paramVersions : OrdMap String U64
  emergencyPaused : Bool

inductive Event
  | proposalProposed (proposalId : ProposalId) (proposer : String) (kind : ProposalKind)
      (paramKey : Option String) (eta : U64)
  | proposalQueued (proposalId : ProposalId) (actor : String)
  | proposalExecuted (proposalId : ProposalId) (actor : String) (kind : ProposalKind)
      (paramKey oldValue newValue : Option String) (versionBefore versionAfter : Option U64)
  | proposalCancelled (proposalId : ProposalId) (actor : String)
  | pauseSet (actor : String) (previousState nextState : Bool) (reasonHash : String)
  | pauseRestoreScheduled (proposalId : ProposalId) (proposer : String) (eta : U64)
      (reasonHash : String)
  | pauseRestoreExecuted (proposalId : ProposalId) (actor reasonHash : String)
  | auditLogCleared

inductive Error
  | unauthorized | invalidEta | invalidParamKey | proposalNotFound | notQueued | notReady
  | alreadyFinalized | wrongProposalKind | selfExecutionForbidden | pauseNotActive
  | guardianExecutorConflict | wrongProposer | currentValueMismatch | paramVersionMismatch
  | pauseRestoreAlreadyScheduled

structure GovernanceGuard where
  admin : String
  minTimelockDelaySecs : U64
  nonce : ProposalId
  proposals : OrdMap ProposalId Proposal
  allowedParamKeys : Finset String
  proposers : Finset String
  executors : Finset String
  guardians : Finset String
  bridge : BridgeState
  auditLog : List Event

abbrev Operation := EStateM Error GovernanceGuard

/-- `matches!(status, Executed | Cancelled)` -/
abbrev ProposalStatus.Final (status : ProposalStatus) : Prop :=
  status = .executed ∨ status = .cancelled

/-- A proposal to lift the pause that is neither executed nor cancelled. -/
abbrev Proposal.ActiveUnpause (p : Proposal) : Prop :=
  p.kind = .emergencyUnpause ∧ (p.status = .pending ∨ p.status = .queued)

namespace GovernanceGuard

def new (admin guardian : String) (minTimelockDelaySecs : U64) : GovernanceGuard :=
  { admin := admin, minTimelockDelaySecs := minTimelockDelaySecs, nonce := 1, proposals := ∅,
    allowedParamKeys := ∅, proposers := ∅, executors := ∅, guardians := {guardian},
    bridge := ⟨∅, ∅, false⟩, auditLog := [] }

def version (g : GovernanceGuard) (key : String) : U64 := (g.bridge.paramVersions.get key).getD 0

def value (g : GovernanceGuard) (key : String) : String := (g.bridge.govParams.get key).getD ""

/-! ## Writes -/

def setMembership (set : Finset String) (value : String) (enabled : Bool) : Finset String :=
  if enabled then insert value set else set.erase value

def setProposal (id : ProposalId) (p : Proposal) (g : GovernanceGuard) : GovernanceGuard :=
  { g with proposals := g.proposals.insert id p }

def push (event : Event) (g : GovernanceGuard) : GovernanceGuard :=
  { g with auditLog := g.auditLog ++ [event] }

def setParam (key value : String) (version : U64) (g : GovernanceGuard) : GovernanceGuard :=
  { g with
    bridge := { g.bridge with
      govParams := g.bridge.govParams.insert key value
      paramVersions := g.bridge.paramVersions.insert key version } }

def setPaused (paused : Bool) (g : GovernanceGuard) : GovernanceGuard :=
  { g with bridge := { g.bridge with emergencyPaused := paused } }

def bumpNonce (g : GovernanceGuard) : GovernanceGuard :=
  { g with nonce := saturatingAdd g.nonce 1 }

/-! ## Checks -/

def requireAdmin (caller : String) : Operation Unit :=
  ensure (fun g => caller = g.admin) .unauthorized

def requireProposer (caller : String) : Operation Unit :=
  ensure (fun g => caller ∈ g.proposers) .unauthorized

def requireExecutor (caller : String) : Operation Unit :=
  ensure (fun g => caller ∈ g.executors) .unauthorized

def requireGuardian (caller : String) : Operation Unit :=
  ensure (fun g => caller ∈ g.guardians) .unauthorized

/-- The proposal that `proposal_mut` points to. -/
def proposalMut (id : ProposalId) : Operation Proposal := do
  lift (getOr ((← get).proposals.get id) .proposalNotFound)

def nextId : Operation ProposalId := do
  let id := (← get).nonce
  modify bumpNonce
  pure id

/-! ## Proposals -/

def paramProposal (id : ProposalId) (proposer paramKey oldValue newValue : String) (eta : U64)
    (baseVersion : U64) (reasonHash : String) : Proposal :=
  { id := id, kind := .paramChange, proposer := proposer, executor := none, eta := eta,
    paramKey := paramKey, oldValue := oldValue, newValue := newValue,
    baseVersion := some baseVersion, reasonHash := reasonHash, status := .pending,
    executedAt := none }

def unpauseProposal (id : ProposalId) (proposer : String) (eta : U64) (reasonHash : String) :
    Proposal :=
  { id := id, kind := .emergencyUnpause, proposer := proposer, executor := none, eta := eta,
    paramKey := "emergency_pause", oldValue := "true", newValue := "false", baseVersion := none,
    reasonHash := reasonHash, status := .queued, executedAt := none }

def executedBy (caller : String) (now : U64) (p : Proposal) : Proposal :=
  { p with status := .executed, executor := some caller, executedAt := some now }

/-! ## Methods -/

def setRole (caller who : String) (canPropose canExecute : Bool) : Operation Unit := do
  requireAdmin caller
  modify fun g => { g with proposers := setMembership g.proposers who canPropose }
  modify fun g => { g with executors := setMembership g.executors who canExecute }

def setGuardian (caller who : String) (enabled : Bool) : Operation Unit := do
  requireAdmin caller
  modify fun g => { g with guardians := setMembership g.guardians who enabled }

def setAllowedParamKey (caller key : String) (enabled : Bool) : Operation Unit := do
  requireAdmin caller
  modify fun g => { g with allowedParamKeys := setMembership g.allowedParamKeys key enabled }

def propose (caller paramKey oldValue newValue : String) (eta : U64) (reasonHash : String)
    (now : U64) : Operation ProposalId := do
  requireProposer caller
  ensure (fun g => saturatingAdd now g.minTimelockDelaySecs ≤ eta) .invalidEta
  ensure (fun g => paramKey ∈ g.allowedParamKeys) .invalidParamKey
  let id ← nextId
  let baseVersion := (← get).version paramKey
  modify (setProposal id
    (paramProposal id caller paramKey oldValue newValue eta baseVersion reasonHash))
  modify (push (.proposalProposed id caller .paramChange (some paramKey) eta))
  pure id

def queue (caller : String) (proposalId : ProposalId) : Operation Unit := do
  requireProposer caller
  let proposal ← proposalMut proposalId
  ensure (fun _ => ¬ proposal.status.Final) .alreadyFinalized
  ensure (fun _ => proposal.proposer = caller) .wrongProposer
  ensure (fun _ => proposal.kind = .paramChange) .wrongProposalKind
  if proposal.status = .queued then pure ()
  else do
    ensure (fun _ => proposal.status = .pending) .notQueued
    modify (setProposal proposalId { proposal with status := .queued })
    modify (push (.proposalQueued proposalId caller))

/-- The checks that `execute` and `execute_unpause` make on their proposal. -/
def readyProposal (kind : ProposalKind) (proposalId : ProposalId) (now : U64) :
    Operation Proposal := do
  let proposal ← proposalMut proposalId
  ensure (fun _ => proposal.kind = kind) .wrongProposalKind
  ensure (fun _ => ¬ proposal.status.Final) .alreadyFinalized
  ensure (fun _ => proposal.status = .queued) .notQueued
  ensure (fun _ => proposal.eta ≤ now) .notReady
  pure proposal

/-- The last write of an execution to its proposal, looked up again. -/
def finalize (caller : String) (proposalId : ProposalId) (now : U64) : Operation Proposal := do
  let proposal ← proposalMut proposalId
  modify (setProposal proposalId (executedBy caller now proposal))
  pure (executedBy caller now proposal)

def execute (caller : String) (proposalId : ProposalId) (now : U64) : Operation Unit := do
  requireExecutor caller
  let proposal ← readyProposal .paramChange proposalId now
  let key := proposal.paramKey
  ensure (fun g => key ∈ g.allowedParamKeys) .invalidParamKey
  let version := (← get).version key
  ensure (fun _ => proposal.baseVersion = some version) .paramVersionMismatch
  let current := (← get).value key
  ensure (fun _ => current = proposal.oldValue) .currentValueMismatch
  let nextVersion := saturatingAdd version 1
  modify (setParam key proposal.newValue nextVersion)
  let _ ← finalize caller proposalId now
  modify (push (.proposalExecuted proposalId caller .paramChange (some key)
    (some proposal.oldValue) (some proposal.newValue) (some version) (some nextVersion)))

/-- Guardians may cancel anything, proposers their own parameter changes. -/
def MayCancel (g : GovernanceGuard) (caller : String) (p : Proposal) : Prop :=
  if caller ∈ g.guardians then True
  else if p.proposer = caller then
    match p.kind with
    | .paramChange => caller ∈ g.proposers
    | .emergencyUnpause => caller ∈ g.guardians
  else False

instance (caller : String) (p : Proposal) : DecidablePred fun g => MayCancel g caller p :=
  fun g => by
  unfold MayCancel
  cases p.kind <;> infer_instance

def cancel (caller : String) (proposalId : ProposalId) : Operation Unit := do
  let proposal ← proposalMut proposalId
  ensure (fun _ => ¬ proposal.status.Final) .alreadyFinalized
  ensure (fun g => MayCancel g caller proposal) .unauthorized
  let current ← proposalMut proposalId
  ensure (fun _ => current.status = proposal.status) .alreadyFinalized
  modify (setProposal proposalId { current with status := .cancelled })
  modify (push (.proposalCancelled proposalId caller))

def emergencyPause (caller reasonHash : String) : Operation Unit := do
  requireGuardian caller
  let previousState := (← get).bridge.emergencyPaused
  if previousState then pure ()
  else do
    modify (setPaused true)
    modify (push (.pauseSet caller previousState true reasonHash))

def scheduleUnpause (caller : String) (eta : U64) (reasonHash : String) (now : U64) :
    Operation ProposalId := do
  requireGuardian caller
  ensure (fun g => g.bridge.emergencyPaused = true) .pauseNotActive
  ensure (fun g => saturatingAdd now g.minTimelockDelaySecs ≤ eta) .invalidEta
  ensure (fun g => ∀ p ∈ g.proposals.values, ¬ p.ActiveUnpause) .pauseRestoreAlreadyScheduled
  let id ← nextId
  modify (setProposal id (unpauseProposal id caller eta reasonHash))
  modify (push (.pauseRestoreScheduled id caller eta reasonHash))
  pure id

def executeUnpause (caller : String) (proposalId : ProposalId) (now : U64) : Operation Unit := do
  requireExecutor caller
  ensure (fun g => caller ∉ g.guardians) .guardianExecutorConflict
  let proposal ← readyProposal .emergencyUnpause proposalId now
  ensure (fun g => proposal.proposer ∈ g.guardians) .unauthorized
  ensure (fun _ => proposal.proposer ≠ caller) .selfExecutionForbidden
  ensure (fun g => g.bridge.emergencyPaused = true) .pauseNotActive
  modify (setPaused false)
  let executed ← finalize caller proposalId now
  modify (push (.pauseRestoreExecuted proposalId caller executed.reasonHash))
  modify (push (.proposalExecuted proposalId caller .emergencyUnpause (some "emergency_pause")
    (some "true") (some "false") none none))

/-- The log so far and a last event that says it was taken. -/
def consumeAuditLog : Operation (List Event) := do
  let consumed := (← get).auditLog
  modify fun g => { g with auditLog := [] }
  pure (consumed ++ [.auditLogCleared])

end GovernanceGuard

/-! ## Calls -/

inductive Call
  | setRole (caller who : String) (canPropose canExecute : Bool)
  | setGuardian (caller who : String) (enabled : Bool)
  | setAllowedParamKey (caller key : String) (enabled : Bool)
  | propose (caller paramKey oldValue newValue : String) (eta : U64) (reasonHash : String)
      (now : U64)
  | queue (caller : String) (proposalId : ProposalId)
  | execute (caller : String) (proposalId : ProposalId) (now : U64)
  | cancel (caller : String) (proposalId : ProposalId)
  | emergencyPause (caller reasonHash : String)
  | scheduleUnpause (caller : String) (eta : U64) (reasonHash : String) (now : U64)
  | executeUnpause (caller : String) (proposalId : ProposalId) (now : U64)
  | consumeAuditLog

inductive Reply
  | done
  | created (id : ProposalId)
  | consumed (events : List Event)

def Call.perform : Call → Operation Reply
  | .setRole caller who canPropose canExecute => do
    GovernanceGuard.setRole caller who canPropose canExecute
    pure .done
  | .setGuardian caller who enabled => do
    GovernanceGuard.setGuardian caller who enabled
    pure .done
  | .setAllowedParamKey caller key enabled => do
    GovernanceGuard.setAllowedParamKey caller key enabled
    pure .done
  | .propose caller paramKey oldValue newValue eta reasonHash now => do
    let id ← GovernanceGuard.propose caller paramKey oldValue newValue eta reasonHash now
    pure (.created id)
  | .queue caller proposalId => do
    GovernanceGuard.queue caller proposalId
    pure .done
  | .execute caller proposalId now => do
    GovernanceGuard.execute caller proposalId now
    pure .done
  | .cancel caller proposalId => do
    GovernanceGuard.cancel caller proposalId
    pure .done
  | .emergencyPause caller reasonHash => do
    GovernanceGuard.emergencyPause caller reasonHash
    pure .done
  | .scheduleUnpause caller eta reasonHash now => do
    let id ← GovernanceGuard.scheduleUnpause caller eta reasonHash now
    pure (.created id)
  | .executeUnpause caller proposalId now => do
    GovernanceGuard.executeUnpause caller proposalId now
    pure .done
  | .consumeAuditLog => do
    let events ← GovernanceGuard.consumeAuditLog
    pure (.consumed events)

end Trillionnium.Governance
