import Trillionnium.Governance.Steps

/-!
# Completeness of the audit log

The events of a run, consumed or not, say all that happened: replaying them gives the bridge state
and the status of every proposal. No proposal is queued twice or finalized twice in them. A proposal
is told from an earlier one with the same identifier by the event that created it, so this holds
also after identifiers have run out.
-/

namespace Trillionnium.Governance

open Lib GovernanceGuard OrdMap

/-! ## Replay -/

structure Replica where
  bridge : BridgeState
  statuses : OrdMap ProposalId ProposalStatus

namespace Replica

def setStatus (id : ProposalId) (status : ProposalStatus) (r : Replica) : Replica :=
  { r with statuses := r.statuses.insert id status }

def setParam (key value : String) (version : U64) (r : Replica) : Replica :=
  { r with
    bridge := { r.bridge with
      govParams := r.bridge.govParams.insert key value
      paramVersions := r.bridge.paramVersions.insert key version } }

def setPaused (paused : Bool) (r : Replica) : Replica :=
  { r with bridge := { r.bridge with emergencyPaused := paused } }

def apply (r : Replica) : Event → Replica
  | .proposalProposed id _ _ _ _ => r.setStatus id .pending
  | .proposalQueued id _ => r.setStatus id .queued
  | .proposalExecuted id _ .paramChange (some key) _ (some value) _ (some version) =>
    (r.setParam key value version).setStatus id .executed
  | .proposalExecuted id _ _ _ _ _ _ _ => r.setStatus id .executed
  | .proposalCancelled id _ => r.setStatus id .cancelled
  | .pauseSet _ _ _ _ => r.setPaused true
  | .pauseRestoreScheduled id _ _ _ => r.setStatus id .queued
  | .pauseRestoreExecuted _ _ _ => r.setPaused false
  | .auditLogCleared => r

end Replica

/-- The replica of the events, from the empty state. -/
def replay (events : List Event) : Replica := events.foldl Replica.apply ⟨⟨∅, ∅, false⟩, ∅⟩

/-- The events that the calls of a run consumed. -/
def consumedEvents (ts : List GuardTurn) : List Event :=
  ts.flatMap fun t =>
    match t.label.reply with
    | .ok (.consumed events) => events
    | _ => []

/-! ## Events of one proposal -/

def Event.Creates (id : ProposalId) (e : Event) : Prop :=
  (∃ proposer kind paramKey eta, e = .proposalProposed id proposer kind paramKey eta) ∨
    ∃ proposer eta reasonHash, e = .pauseRestoreScheduled id proposer eta reasonHash

def Event.Queues (id : ProposalId) (e : Event) : Prop := ∃ actor, e = .proposalQueued id actor

def Event.Finalizes (id : ProposalId) (e : Event) : Prop :=
  (∃ actor kind paramKey oldValue newValue versionBefore versionAfter,
      e = .proposalExecuted id actor kind paramKey oldValue newValue versionBefore versionAfter) ∨
    ∃ actor, e = .proposalCancelled id actor

/-- The log tells exactly what the guard holds, and tells it once. -/
structure Complete (log : List Event) (g : GovernanceGuard) : Prop where
  bridge : (replay log).bridge = g.bridge
  statuses : ∀ id, (replay log).statuses.get id = (g.proposals.get id).map Proposal.status
  queued_once : ∀ id, ¬ Repeats (Event.Queues id) (Event.Creates id) log
  finalized_once : ∀ id, ¬ Repeats (Event.Finalizes id) (Event.Creates id) log

section
variable {g g' : GovernanceGuard} {call : Call} {log : List Event} {e : Event} {t : GuardTurn}
  {ts : List GuardTurn} {id j : ProposalId} {p p' : Proposal}

theorem replay_snoc : replay (log ++ [e]) = (replay log).apply e := by simp [replay]

theorem consumedEvents_snoc : consumedEvents (ts ++ [t]) = consumedEvents ts ++
    match t.label.reply with
    | .ok (.consumed events) => events
    | _ => [] := by
  simp [consumedEvents]

/-! ## The invariant -/

/-- The proposal has left the status it was created with. -/
def Left (P : ProposalStatus → Prop) (g : GovernanceGuard) (id : ProposalId) : Prop :=
  ∃ p, g.proposals.get id = some p ∧ P p.status

/-- A proposal that the log calls queued or final since its creation is so. -/
structure Logged (log : List Event) (g : GovernanceGuard) : Prop where
  complete : Complete log g
  queued : ∀ id, Since (Event.Queues id) (Event.Creates id) log → Left (· ≠ .pending) g id
  final : ∀ id, Since (Event.Finalizes id) (Event.Creates id) log → Left ProposalStatus.Final g id

/-- The statuses that an event leaves are those of the proposals after it. -/
structure Tells (e : Event) (g g' : GovernanceGuard) : Prop where
  bridge : ∀ r : Replica, r.bridge = g.bridge → (r.apply e).bridge = g'.bridge
  statuses : ∀ r : Replica, (∀ j, r.statuses.get j = (g.proposals.get j).map Proposal.status) →
    ∀ j, (r.apply e).statuses.get j = (g'.proposals.get j).map Proposal.status
  queues : ∀ j, e.Queues j → ¬ Left (· ≠ .pending) g j ∧ Left (· ≠ .pending) g' j
  finalizes : ∀ j, e.Finalizes j → ¬ Left ProposalStatus.Final g j ∧ Left ProposalStatus.Final g' j
  keepsQueued : ∀ j, ¬ e.Creates j → Left (· ≠ .pending) g j → Left (· ≠ .pending) g' j
  keepsFinal : ∀ j, ¬ e.Creates j → Left ProposalStatus.Final g j → Left ProposalStatus.Final g' j

theorem Logged.snoc (h : Logged log g) (he : Tells e g g') : Logged (log ++ [e]) g' := by
  refine ⟨⟨?_, ?_, fun j hrepeats => ?_, fun j hrepeats => ?_⟩, fun j hsince => ?_,
    fun j hsince => ?_⟩
  · rw [replay_snoc]
    exact he.bridge _ h.complete.bridge
  · rw [replay_snoc]
    exact he.statuses _ h.complete.statuses
  · rcases repeats_snoc hrepeats with hold | ⟨hq, hsince⟩
    · exact h.complete.queued_once j hold
    · exact (he.queues j hq).1 (h.queued j hsince)
  · rcases repeats_snoc hrepeats with hold | ⟨hf, hsince⟩
    · exact h.complete.finalized_once j hold
    · exact (he.finalizes j hf).1 (h.final j hsince)
  · rcases since_snoc hsince with hq | ⟨hcreates, hsince⟩
    · exact (he.queues j hq).2
    · exact he.keepsQueued j hcreates (h.queued j hsince)
  · rcases since_snoc hsince with hf | ⟨hcreates, hsince⟩
    · exact (he.finalizes j hf).2
    · exact he.keepsFinal j hcreates (h.final j hsince)

/-- The log is that of a guard that differs in neither its bridge state nor its proposals. -/
theorem Logged.congr (h : Logged log g) (hbridge : g'.bridge = g.bridge)
    (hproposals : g'.proposals = g.proposals) : Logged log g' := by
  have hleft : ∀ P id, Left P g id → Left P g' id := fun P id ⟨p, hget, hp⟩ =>
    ⟨p, hproposals ▸ hget, hp⟩
  exact ⟨⟨h.complete.bridge.trans hbridge.symm, hproposals ▸ h.complete.statuses,
    h.complete.queued_once, h.complete.finalized_once⟩, fun id hs => hleft _ id (h.queued id hs),
    fun id hs => hleft _ id (h.final id hs)⟩

/-! ## Events -/

theorem statuses_insert {r : Replica}
    (h : ∀ j, r.statuses.get j = (g.proposals.get j).map Proposal.status) :
    (r.setStatus id p.status).statuses.get j =
      ((g.proposals.insert id p).get j).map Proposal.status := by
  rw [Replica.setStatus, get_insert, get_insert, h]
  split <;> rfl

/-- Other proposals stay as they are. -/
theorem Left.insert_ne (h : Left P g j) (hne : id ≠ j)
    (hproposals : g'.proposals = g.proposals.insert id p) : Left P g' j := by
  obtain ⟨q, hget, hq⟩ := h
  exact ⟨q, by rw [hproposals, get_insert_ne hne, hget], hq⟩

theorem not_left (hget : g.proposals.get id = some p) (hp : ¬ P p.status) : ¬ Left P g id := by
  rintro ⟨q, hq, hP⟩
  obtain rfl := Option.some.inj (hget.symm.trans hq)
  exact hp hP

/-- An event that says nothing about proposals. -/
theorem Tells.quiet (hstatuses : ∀ r : Replica, (r.apply e).statuses = r.statuses)
    (hqueues : ∀ j, ¬ e.Queues j) (hfinalizes : ∀ j, ¬ e.Finalizes j)
    (hproposals : g'.proposals = g.proposals)
    (hbridge : ∀ r : Replica, r.bridge = g.bridge → (r.apply e).bridge = g'.bridge) :
    Tells e g g' where
  bridge := hbridge
  statuses r h j := by rw [hstatuses, hproposals, h]
  queues j hj := (hqueues j hj).elim
  finalizes j hj := (hfinalizes j hj).elim
  keepsQueued _ _ := fun ⟨p, hget, hp⟩ => ⟨p, hproposals ▸ hget, hp⟩
  keepsFinal _ _ := fun ⟨p, hget, hp⟩ => ⟨p, hproposals ▸ hget, hp⟩

theorem Tells.create (hcreates : e.Creates id)
    (happly : ∀ r : Replica, r.apply e = r.setStatus id p.status) (hbridge : g'.bridge = g.bridge)
    (hproposals : g'.proposals = g.proposals.insert id p) : Tells e g g' where
  bridge r h := by
    rw [happly, hbridge]
    exact h
  statuses r h j := by
    rw [happly, hproposals]
    exact statuses_insert h
  queues j hj := by
    obtain ⟨actor, rfl⟩ := hj
    simp [Event.Creates] at hcreates
  finalizes j hj := by
    obtain ⟨_, _, _, _, _, _, _, rfl⟩ | ⟨actor, rfl⟩ := hj <;> simp [Event.Creates] at hcreates
  keepsQueued _ hj h := h.insert_ne (fun he => hj (he ▸ hcreates)) hproposals
  keepsFinal _ hj h := h.insert_ne (fun he => hj (he ▸ hcreates)) hproposals

theorem Tells.queue (hget : g.proposals.get id = some p)
    (hpending : p.status = .pending) (hbridge : g'.bridge = g.bridge)
    (hproposals : g'.proposals = g.proposals.insert id { p with status := .queued }) :
    Tells (.proposalQueued id actor) g g' where
  bridge r h := h.trans hbridge.symm
  statuses r h j := by
    rw [hproposals]
    exact statuses_insert (p := { p with status := .queued }) h
  queues j hj := by
    obtain ⟨_, hj⟩ := hj
    cases hj
    exact ⟨not_left hget (by simp [hpending]), _, by rw [hproposals, get_insert_self], by simp⟩
  finalizes j hj := by simp [Event.Finalizes] at hj
  keepsQueued j _ h := by
    by_cases hj : id = j
    · subst hj
      exact ⟨_, by rw [hproposals, get_insert_self], by simp⟩
    · exact h.insert_ne hj hproposals
  keepsFinal j _ h := by
    refine h.insert_ne ?_ hproposals
    rintro rfl
    exact not_left hget (by simp [hpending, ProposalStatus.Final]) h

theorem Tells.finalize (hfinalizes : ∀ j, e.Finalizes j ↔ j = id)
    (happly : ∀ r : Replica, (r.apply e).statuses = (r.setStatus id p'.status).statuses)
    (hbridge : ∀ r : Replica, r.bridge = g.bridge → (r.apply e).bridge = g'.bridge)
    (hget : g.proposals.get id = some p) (hopen : ¬ p.status.Final) (hfinal : p'.status.Final)
    (hproposals : g'.proposals = g.proposals.insert id p') : Tells e g g' where
  bridge := hbridge
  statuses r h j := by
    rw [happly, hproposals]
    exact statuses_insert h
  queues j hj := by
    obtain ⟨actor, rfl⟩ := hj
    simpa [Event.Finalizes] using (hfinalizes id).mpr rfl
  finalizes j hj := by
    obtain rfl := (hfinalizes j).mp hj
    exact ⟨not_left hget hopen, p', by rw [hproposals, get_insert_self], hfinal⟩
  keepsQueued j _ h := by
    by_cases hj : id = j
    · subst hj
      refine ⟨p', by rw [hproposals, get_insert_self], ?_⟩
      rcases hfinal with hstatus | hstatus <;> simp [hstatus]
    · exact h.insert_ne hj hproposals
  keepsFinal j _ h := by
    refine h.insert_ne ?_ hproposals
    rintro rfl
    exact not_left hget hopen h

/-! ## Calls -/

theorem Logged.start {admin guardian : String} : Logged [] (new admin guardian delay) where
  complete := ⟨rfl, fun _ => rfl, fun _ => not_repeats_nil, fun _ => not_repeats_nil⟩
  queued _ h := (not_since_nil h).elim
  final _ h := (not_since_nil h).elim

variable (h : Logged (consumedEvents ts ++ g.auditLog) g)
include h

/-- A call that logs nothing and consumes nothing. -/
theorem Logged.silent (hreply : ∀ events, t.label.reply ≠ .ok (.consumed events))
    (hlog : t.after.auditLog = g.auditLog) (hbridge : t.after.bridge = g.bridge)
    (hproposals : t.after.proposals = g.proposals) :
    Logged (consumedEvents (ts ++ [t]) ++ t.after.auditLog) t.after := by
  have hnone : consumedEvents (ts ++ [t]) = consumedEvents ts := by
    rw [consumedEvents_snoc]
    split
    · next hr => exact (hreply _ hr).elim
    · exact List.append_nil _
  rw [hnone, hlog]
  exact h.congr hbridge hproposals

theorem Logged.told (hreply : ∀ events, t.label.reply ≠ .ok (.consumed events))
    (hlog : t.after.auditLog = g.auditLog ++ [e]) (he : Tells e g t.after) :
    Logged (consumedEvents (ts ++ [t]) ++ t.after.auditLog) t.after := by
  have hnone : consumedEvents (ts ++ [t]) = consumedEvents ts := by
    rw [consumedEvents_snoc]
    split
    · next hr => exact (hreply _ hr).elim
    · exact List.append_nil _
  rw [hnone, hlog, ← List.append_assoc]
  exact h.snoc he

theorem Logged.outcome (ht : Outcome g call t) :
    Logged (consumedEvents (ts ++ [t]) ++ t.after.auditLog) t.after := by
  cases ht with
  | failed => exact h.silent (by simp) rfl rfl rfl
  | returned hs =>
    cases hs with
    | setRole | setGuardian | setAllowedParamKey | queueAgain | pauseAgain =>
      exact h.silent (by simp) rfl rfl rfl
    | propose =>
      exact h.told (by simp) rfl (.create (.inl ⟨_, _, _, _, rfl⟩) (fun _ => rfl) rfl rfl)
    | scheduleUnpause =>
      exact h.told (by simp) rfl (.create (.inr ⟨_, _, _, rfl⟩) (fun _ => rfl) rfl rfl)
    | queue hget _ _ hpending => exact h.told (by simp) rfl (.queue hget hpending rfl rfl)
    | cancel hget hopen =>
      refine h.told (by simp) rfl (.finalize (fun j => ?_) (fun _ => rfl) (fun _ hr => hr)
        hget hopen (.inr rfl) rfl)
      simp [Event.Finalizes, eq_comm]
    | execute hcaller hget _ hqueued =>
      refine h.told (by simp) rfl (.finalize (fun j => ?_) (fun _ => rfl) (fun r hr => ?_) hget
        (by simp [hqueued, ProposalStatus.Final]) (.inl rfl) rfl)
      · simp [Event.Finalizes, eq_comm]
      · simp only [Replica.apply, Replica.setStatus, Replica.setParam, hr]
        rfl
    | pause =>
      refine h.told (by simp) rfl (.quiet (fun _ => rfl) (by simp [Event.Queues])
        (by simp [Event.Finalizes]) rfl fun r hr => ?_)
      simp only [Replica.apply, Replica.setPaused, hr]
      rfl
    | @executeUnpause caller p now id _ _ hget _ hqueued =>
      have hlifted : Tells (.pauseRestoreExecuted id caller p.reasonHash) g
          (setPaused false g) := by
        refine .quiet (fun _ => rfl) (by simp [Event.Queues]) (by simp [Event.Finalizes]) rfl
          fun r hr => ?_
        simp only [Replica.apply, Replica.setPaused, hr]
        rfl
      have hexecuted : Tells (.proposalExecuted id caller .emergencyUnpause
          (some "emergency_pause") (some "true") (some "false") none none) (setPaused false g)
          (setProposal id (executedBy caller now p) (setPaused false g)) :=
        .finalize (fun j => by simp [Event.Finalizes, eq_comm]) (fun _ => rfl) (fun _ hr => hr) hget
          (by simp [hqueued, ProposalStatus.Final]) (.inl rfl) rfl
      have hlogged : Logged _ (push (.proposalExecuted id caller .emergencyUnpause
          (some "emergency_pause") (some "true") (some "false") none none)
        (push (.pauseRestoreExecuted id caller p.reasonHash)
          (setProposal id (executedBy caller now p) (setPaused false g)))) :=
        ((h.snoc hlifted).snoc hexecuted).congr rfl rfl
      simpa [consumedEvents_snoc, push, setProposal, setPaused] using hlogged
    | consumeAuditLog =>
      have hcleared : Tells .auditLogCleared g { g with auditLog := [] } :=
        .quiet (fun _ => rfl) (by simp [Event.Queues]) (by simp [Event.Finalizes]) rfl
          fun _ hr => hr
      simpa [consumedEvents_snoc] using h.snoc hcleared

omit h

end

/-- The consumed events of a run and its current log are complete. -/
theorem log_complete (admin guardian : String) (delay : U64) (calls : List Call) :
    Complete (consumedEvents (trace (new admin guardian delay) calls) ++
        (run (new admin guardian delay) calls).auditLog)
      (run (new admin guardian delay) calls) := by
  have hlogged := run_induction (g := new admin guardian delay)
    (P := fun ts g => Logged (consumedEvents ts ++ g.auditLog) g) calls .start
    fun ts g call t h ht => h.outcome ht
  exact hlogged.complete

end Trillionnium.Governance
