import Trillionnium.Governance.Guard
import Trillionnium.Lib.Trace

/-!
# What a call of the guard does

`Step` says all that a call does when it returns. Every call makes its checks before its first
write, so a call that fails has written nothing.
-/

namespace Trillionnium.Governance

open Lib GovernanceGuard

/-- The effect of a call that returns. -/
inductive Step (g : GovernanceGuard) : Call → Reply → GovernanceGuard → Prop
  | setRole : Step g (.setRole g.admin who canPropose canExecute) .done
        { g with
          proposers := setMembership g.proposers who canPropose
          executors := setMembership g.executors who canExecute }
  | setGuardian : Step g (.setGuardian g.admin who enabled) .done
        { g with guardians := setMembership g.guardians who enabled }
  | setAllowedParamKey : Step g (.setAllowedParamKey g.admin key enabled) .done
        { g with allowedParamKeys := setMembership g.allowedParamKeys key enabled }
  | propose (hcaller : caller ∈ g.proposers) (heta : saturatingAdd now g.minTimelockDelaySecs ≤ eta)
      (hkey : paramKey ∈ g.allowedParamKeys) :
      Step g (.propose caller paramKey oldValue newValue eta reasonHash now) (.created g.nonce)
        (push (.proposalProposed g.nonce caller .paramChange (some paramKey) eta)
          (setProposal g.nonce (paramProposal g.nonce caller paramKey oldValue newValue eta
            (g.version paramKey) reasonHash) (bumpNonce g)))
  | queueAgain {id : ProposalId}
      (hget : g.proposals.get id = some p) (hqueued : p.status = .queued) :
      Step g (.queue caller id) .done g
  | queue {id : ProposalId} (hget : g.proposals.get id = some p) (hcaller : p.proposer = caller)
      (hkind : p.kind = .paramChange) (hpending : p.status = .pending) :
      Step g (.queue caller id) .done
        (push (.proposalQueued id caller) (setProposal id { p with status := .queued } g))
  | execute {id : ProposalId} (hcaller : caller ∈ g.executors) (hget : g.proposals.get id = some p)
      (hkind : p.kind = .paramChange) (hqueued : p.status = .queued) (heta : p.eta ≤ now)
      (hbase : p.baseVersion = some (g.version p.paramKey))
      (hvalue : g.value p.paramKey = p.oldValue) :
      Step g (.execute caller id now) .done
        (push (.proposalExecuted id caller .paramChange (some p.paramKey) (some p.oldValue)
            (some p.newValue) (some (g.version p.paramKey))
            (some (saturatingAdd (g.version p.paramKey) 1)))
          (setProposal id (executedBy caller now p)
            (setParam p.paramKey p.newValue (saturatingAdd (g.version p.paramKey) 1) g)))
  | cancel {id : ProposalId} (hget : g.proposals.get id = some p)
      (hopen : ¬ p.status.Final) (hcaller : MayCancel g caller p) :
      Step g (.cancel caller id) .done
        (push (.proposalCancelled id caller) (setProposal id { p with status := .cancelled } g))
  | pauseAgain (hpaused : g.bridge.emergencyPaused = true) :
      Step g (.emergencyPause caller reasonHash) .done g
  | pause (hcaller : caller ∈ g.guardians)
      (hrunning : g.bridge.emergencyPaused = false) :
      Step g (.emergencyPause caller reasonHash) .done
        (push (.pauseSet caller false true reasonHash) (setPaused true g))
  | scheduleUnpause (hcaller : caller ∈ g.guardians)
      (hpaused : g.bridge.emergencyPaused = true)
      (heta : saturatingAdd now g.minTimelockDelaySecs ≤ eta)
      (hnone : ∀ p ∈ g.proposals.values, ¬ p.ActiveUnpause) :
      Step g (.scheduleUnpause caller eta reasonHash now) (.created g.nonce)
        (push (.pauseRestoreScheduled g.nonce caller eta reasonHash)
          (setProposal g.nonce (unpauseProposal g.nonce caller eta reasonHash) (bumpNonce g)))
  | executeUnpause {id : ProposalId}
      (hcaller : caller ∈ g.executors) (hguardian : caller ∉ g.guardians)
      (hget : g.proposals.get id = some p) (hkind : p.kind = .emergencyUnpause)
      (hqueued : p.status = .queued) (heta : p.eta ≤ now) (hproposer : p.proposer ∈ g.guardians)
      (hpaused : g.bridge.emergencyPaused = true) :
      Step g (.executeUnpause caller id now) .done
        (push (.proposalExecuted id caller .emergencyUnpause (some "emergency_pause")
            (some "true") (some "false") none none)
          (push (.pauseRestoreExecuted id caller p.reasonHash)
            (setProposal id (executedBy caller now p) (setPaused false g))))
  | consumeAuditLog :
      Step g .consumeAuditLog (.consumed (g.auditLog ++ [.auditLogCleared]))
        { g with auditLog := [] }

section
variable {g g' : GovernanceGuard} {α : Type} {caller : String} {id : ProposalId} {now : U64}

/-! ## Checks -/

section
variable {f : Proposal → Operation α} {Q : α → GovernanceGuard → Prop}

theorem proposalMut_bind (h : ∀ p, g.proposals.get id = some p → Safe (f p) g Q) :
    Safe (proposalMut id >>= f) g Q := by
  unfold proposalMut
  rw [bind_assoc]
  exact .get_bind (.lift_bind fun p hp => h p (getOr_eq_ok.mp hp))

theorem readyProposal_bind (h : ∀ p, g.proposals.get id = some p →
    p.kind = kind → p.status = .queued → p.eta ≤ now → Safe (f p) g Q) :
    Safe (readyProposal kind id now >>= f) g Q := by
  unfold readyProposal
  rw [bind_assoc]
  refine proposalMut_bind fun p hget => ?_
  simp only [bind_assoc, pure_bind]
  exact .ensure_bind fun hkind => .ensure_bind fun _ => .ensure_bind fun hqueued =>
    .ensure_bind fun heta => h p hget hkind hqueued heta

end

theorem finalize_run (h : g.proposals.get id = some p) : (finalize caller id now).run g =
      .ok (executedBy caller now p) (setProposal id (executedBy caller now p) g) := by
  unfold finalize proposalMut
  rw [bind_assoc, run_get_bind, h]
  rfl

/-! ## Calls -/

theorem setRole_safe :
    Safe (setRole caller who canPropose canExecute) g fun _ g' =>
      Step g (.setRole caller who canPropose canExecute) .done g' := by
  refine .ensure_bind fun hadmin => .of_run rfl ?_
  subst hadmin
  exact .setRole

theorem setGuardian_safe : Safe (setGuardian caller who enabled) g fun _ g' =>
      Step g (.setGuardian caller who enabled) .done g' := by
  refine .ensure_bind fun hadmin => .of_run rfl ?_
  subst hadmin
  exact .setGuardian

theorem setAllowedParamKey_safe :
    Safe (setAllowedParamKey caller key enabled) g fun _ g' =>
      Step g (.setAllowedParamKey caller key enabled) .done g' := by
  refine .ensure_bind fun hadmin => .of_run rfl ?_
  subst hadmin
  exact .setAllowedParamKey

theorem propose_safe :
    Safe (propose caller paramKey oldValue newValue eta reasonHash now) g fun id g' =>
      Step g (.propose caller paramKey oldValue newValue eta reasonHash now) (.created id) g' :=
  .ensure_bind fun hcaller => .ensure_bind fun heta => .ensure_bind fun hkey =>
    .of_run rfl (.propose hcaller heta hkey)

theorem queue_safe : Safe (queue caller id) g fun _ g' => Step g (.queue caller id) .done g' := by
  refine .ensure_bind fun _ => proposalMut_bind fun p hget => ?_
  refine .ensure_bind fun _ => .ensure_bind fun hcaller => .ensure_bind fun hkind => ?_
  split
  · next hqueued => exact .of_run rfl (.queueAgain hget hqueued)
  · exact .ensure_bind fun hpending => .of_run rfl (.queue hget hcaller hkind hpending)

theorem execute_safe :
    Safe (execute caller id now) g fun _ g' => Step g (.execute caller id now) .done g' := by
  refine .ensure_bind fun hcaller => readyProposal_bind fun p hget hkind hqueued heta => ?_
  refine .ensure_bind fun _ => .get_bind (.ensure_bind fun hbase => ?_)
  refine .get_bind (.ensure_bind fun hvalue => .of_run (a := ()) ?_
    (.execute hcaller hget hkind hqueued heta hbase hvalue))
  have hkept : (setParam p.paramKey p.newValue (saturatingAdd (g.version p.paramKey) 1)
      g).proposals.get id = some p := hget
  rw [run_modify_bind, run_bind_ok (finalize_run hkept)]
  rfl

theorem cancel_safe :
    Safe (cancel caller id) g fun _ g' => Step g (.cancel caller id) .done g' := by
  refine proposalMut_bind fun p hget => .ensure_bind fun hopen => .ensure_bind fun hcaller => ?_
  refine proposalMut_bind fun p' hget' => .ensure_bind fun _ => .of_run rfl ?_
  obtain rfl := Option.some.inj (hget.symm.trans hget')
  exact .cancel hget hopen hcaller

theorem emergencyPause_safe : Safe (emergencyPause caller reasonHash) g fun _ g' =>
      Step g (.emergencyPause caller reasonHash) .done g' := by
  refine .ensure_bind fun hcaller => .get_bind ?_
  dsimp only
  split
  · next hpaused => exact .of_run rfl (.pauseAgain hpaused)
  · next hrunning =>
    have hfalse := Bool.not_eq_true _ ▸ hrunning
    rw [hfalse]
    exact .of_run rfl (.pause hcaller hfalse)

theorem scheduleUnpause_safe :
    Safe (scheduleUnpause caller eta reasonHash now) g fun id g' =>
      Step g (.scheduleUnpause caller eta reasonHash now) (.created id) g' :=
  .ensure_bind fun hcaller => .ensure_bind fun hpaused => .ensure_bind fun heta =>
    .ensure_bind fun hnone => .of_run rfl (.scheduleUnpause hcaller hpaused heta hnone)

theorem executeUnpause_safe : Safe (executeUnpause caller id now) g fun _ g' =>
      Step g (.executeUnpause caller id now) .done g' := by
  refine .ensure_bind fun hcaller => .ensure_bind fun hguardian => ?_
  refine readyProposal_bind fun p hget hkind hqueued heta => ?_
  refine .ensure_bind fun hproposer => .ensure_bind fun _ => .ensure_bind fun hpaused => ?_
  refine .of_run (a := ()) ?_
    (.executeUnpause hcaller hguardian hget hkind hqueued heta hproposer hpaused)
  have hkept : (setPaused false g).proposals.get id = some p := hget
  rw [run_modify_bind, run_bind_ok (finalize_run hkept)]
  rfl

theorem consumeAuditLog_safe :
    Safe consumeAuditLog g fun events g' => Step g .consumeAuditLog (.consumed events) g' :=
  .of_run rfl .consumeAuditLog

theorem perform_safe : Safe call.perform g (Step g call) := by
  cases call with
  | setRole => exact setRole_safe.bind fun _ _ h => .of_pure h
  | setGuardian => exact setGuardian_safe.bind fun _ _ h => .of_pure h
  | setAllowedParamKey => exact setAllowedParamKey_safe.bind fun _ _ h => .of_pure h
  | propose => exact propose_safe.bind fun _ _ h => .of_pure h
  | queue => exact queue_safe.bind fun _ _ h => .of_pure h
  | execute => exact execute_safe.bind fun _ _ h => .of_pure h
  | cancel => exact cancel_safe.bind fun _ _ h => .of_pure h
  | emergencyPause => exact emergencyPause_safe.bind fun _ _ h => .of_pure h
  | scheduleUnpause => exact scheduleUnpause_safe.bind fun _ _ h => .of_pure h
  | executeUnpause => exact executeUnpause_safe.bind fun _ _ h => .of_pure h
  | consumeAuditLog => exact consumeAuditLog_safe.bind fun _ _ h => .of_pure h

end

/-!
## Runs of the governance guard

A run is a sequence of calls on a new guard, by any callers. Its trace records for every call the
guard before and after it and what it returned.
-/

structure Entry where
  call : Call
  reply : Except Error Reply

abbrev GuardTurn := Turn GovernanceGuard Entry

/-- A call on the guard, with what it leaves whether it returns or fails. -/
def turn (g : GovernanceGuard) (call : Call) : GuardTurn :=
  match call.perform.run g with
  | .ok reply g' => ⟨g, ⟨call, .ok reply⟩, g'⟩
  | .error e g' => ⟨g, ⟨call, .error e⟩, g'⟩

def run (g : GovernanceGuard) (calls : List Call) : GovernanceGuard :=
  calls.foldl (fun g call => (turn g call).after) g

def trace (g : GovernanceGuard) : List Call → List GuardTurn
  | [] => []
  | call :: calls => turn g call :: trace (turn g call).after calls

/-- A call either takes a step or fails and changes nothing. -/
inductive Outcome (g : GovernanceGuard) (call : Call) : GuardTurn → Prop
  | returned {reply : Reply} {g' : GovernanceGuard} (h : Step g call reply g') :
      Outcome g call ⟨g, ⟨call, .ok reply⟩, g'⟩
  | failed {e : Error} : Outcome g call ⟨g, ⟨call, .error e⟩, g⟩

section
variable {g : GovernanceGuard} {call : Call} {calls : List Call}

theorem turn_outcome : Outcome g call (turn g call) := by
  unfold turn
  split
  · next hrun => exact .returned (perform_safe.run_ok hrun)
  · next hrun =>
    obtain hfalse | rfl := perform_safe.run_error hrun
    · exact hfalse.elim
    · exact .failed

theorem run_append_singleton : run g (calls ++ [call]) = (turn (run g calls) call).after := by
  simp [run]

theorem trace_append_singleton :
    trace g (calls ++ [call]) = trace g calls ++ [turn (run g calls) call] := by
  induction calls generalizing g with
  | nil => rfl
  | cons first calls ih => simp [trace, ih, run]

/-- What holds at the start and is kept by every further call holds of every run. -/
theorem run_induction {P : List GuardTurn → GovernanceGuard → Prop} (calls : List Call)
    (hstart : P [] g) (hcall : ∀ ts g call t, P ts g → Outcome g call t → P (ts ++ [t]) t.after) :
    P (trace g calls) (run g calls) := by
  induction calls using List.reverseRecOn with
  | nil => exact hstart
  | append_singleton calls call ih =>
    rw [trace_append_singleton, run_append_singleton]
    exact hcall _ _ call _ ih turn_outcome

end

/-! ## What a turn did -/

def Entry.created (e : Entry) : Option ProposalId :=
  match e.reply with
  | .ok (.created id) => some id
  | _ => none

/-- The time of a call that creates a proposal and the earliest time of its execution. -/
def Call.schedule : Call → Option (U64 × U64)
  | .propose _ _ _ _ eta _ now => some (now, eta)
  | .scheduleUnpause _ eta _ now => some (now, eta)
  | _ => none

/-- The caller, the proposal and the time of a call that executes a proposal. -/
def Call.execution : Call → Option (String × ProposalId × U64)
  | .execute caller id now => some (caller, id, now)
  | .executeUnpause caller id now => some (caller, id, now)
  | _ => none

def Entry.execution (e : Entry) : Option (String × ProposalId × U64) :=
  match e.reply with
  | .ok _ => e.call.execution
  | .error _ => none

def Executes (t : GuardTurn) (id : ProposalId) : Prop :=
  ∃ caller now, t.label.execution = some (caller, id, now)

/-- The proposal that the turn executes, as it was before. -/
def executedProposal (t : GuardTurn) : Option Proposal :=
  t.label.execution.bind fun e => t.before.proposals.get e.2.1

/-- The executed changes of a parameter, in the order of their execution. -/
def paramExecutions (key : String) (ts : List GuardTurn) : List Proposal :=
  (ts.filterMap executedProposal).filter fun p => p.kind = .paramChange ∧ p.paramKey = key

def createdCount (ts : List GuardTurn) : Nat := ts.countP fun t => t.label.created.isSome

def executedCount (ts : List GuardTurn) : Nat := ts.countP fun t => t.label.execution.isSome

section
variable {ts : List GuardTurn} {t : GuardTurn} {key : String}

theorem createdCount_append :
    createdCount (ts ++ [t]) = createdCount ts + if t.label.created.isSome then 1 else 0 := by
  simp [createdCount, List.countP_append, List.countP_singleton]

theorem executedCount_append :
    executedCount (ts ++ [t]) = executedCount ts + if t.label.execution.isSome then 1 else 0 := by
  simp [executedCount, List.countP_append, List.countP_singleton]

theorem paramExecutions_append : paramExecutions key (ts ++ [t]) = paramExecutions key ts ++
    (executedProposal t).toList.filter fun p => p.kind = .paramChange ∧ p.paramKey = key := by
  unfold paramExecutions
  rw [List.filterMap_append, List.filter_append, List.filterMap_cons]
  cases executedProposal t <;> rfl

/-- No more changes of one parameter were executed than proposals. -/
theorem length_paramExecutions_le : (paramExecutions key ts).length ≤ executedCount ts := by
  refine (List.length_filter_le _ _).trans ?_
  rw [List.length_filterMap_eq_countP, executedCount]
  refine List.countP_mono_left fun t _ h => ?_
  cases he : t.label.execution with
  | none => simp [executedProposal, he] at h
  | some e => rfl

end

end Trillionnium.Governance
