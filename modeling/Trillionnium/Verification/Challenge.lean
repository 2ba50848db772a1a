import Trillionnium.Hash
import Trillionnium.Lib.Calls
import Trillionnium.Lib.Layout

/-!
# The lifecycle of a challenge

`ChallengeRecordV1` of the verification profiles. Every phase has a deadline for the step out of it,
and `expire` closes a record whose deadline has passed. The deadline that `expire` takes for the
evidence period is the one for evidence, while the response may begin until the one for responses:
between the two, a challenge can be expired although its response could still begin.
-/

namespace Trillionnium.Verification

open Lib Pon

inductive VerificationProfileError where
  | zeroIdentifier
  | invalidChallengePhase
  | challengeDeadlineMissed
  | appealAlreadyUsed
  deriving DecidableEq

abbrev Outcome (α : Type) := Except VerificationProfileError α

inductive ChallengePhase where
  | opened
  | evidencePeriod
  | responsePeriod
  | decisionPending
  | upheld
  | rejected
  | appealPending
  | final
  deriving DecidableEq

def ChallengePhase.code : ChallengePhase → UInt8
  | opened => 0
  | evidencePeriod => 1
  | responsePeriod => 2
  | decisionPending => 3
  | upheld => 4
  | rejected => 5
  | appealPending => 6
  | final => 7

inductive ChallengeFinalOutcome where
  | upheld
  | rejected
  | withdrawn
  | expired
  deriving DecidableEq

def outcomeCode : Option ChallengeFinalOutcome → UInt8
  | none => 0
  | some .upheld => 1
  | some .rejected => 2
  | some .withdrawn => 3
  | some .expired => 4

structure ChallengeRecord where
  challengeId : Hash
  resultId : Hash
  challenger : Hash
  phase : ChallengePhase
  openedHeight : U64
  evidenceDeadline : U64
  responseDeadline : U64
  decisionDeadline : U64
  appealDeadline : U64
  appealUsed : Bool
  finalOutcome : Option ChallengeFinalOutcome
  recordDigest : Hash

def requireNonzero (value : Hash) : Outcome Unit := require (value ≠ .zero) .zeroIdentifier

namespace ChallengeRecord

section
variable (sha256 : Bytes → Hash)

def digestMessage (record : ChallengeRecord) : Bytes :=
  Bytes.framesBE 8 [Bytes.ofString "trnm.g2c.challenge-record.v1\x00", record.challengeId.bytes,
    record.resultId.bytes, record.challenger.bytes, [record.phase.code],
    Bytes.be 8 record.openedHeight, Bytes.be 8 record.evidenceDeadline,
    Bytes.be 8 record.responseDeadline, Bytes.be 8 record.decisionDeadline,
    Bytes.be 8 record.appealDeadline, [if record.appealUsed then 1 else 0],
    [outcomeCode record.finalOutcome]]

def refreshDigest (record : ChallengeRecord) : ChallengeRecord :=
  { record with recordDigest := sha256 record.digestMessage }

def open_ (challengeId resultId challenger : Hash) (openedHeight challengeWindowEnd evidenceDeadline
    responseDeadline decisionDeadline appealDeadline : U64) : Outcome ChallengeRecord := do
  requireNonzero challengeId
  requireNonzero resultId
  requireNonzero challenger
  require (openedHeight ≤ challengeWindowEnd ∧ openedHeight ≤ evidenceDeadline ∧
    evidenceDeadline ≤ responseDeadline ∧ responseDeadline ≤ decisionDeadline ∧
    decisionDeadline ≤ appealDeadline) .challengeDeadlineMissed
  return refreshDigest sha256 ⟨challengeId, resultId, challenger, .opened, openedHeight,
    evidenceDeadline, responseDeadline, decisionDeadline, appealDeadline, false, none,
    ⟨List.replicate 32 1, rfl⟩⟩

variable (record : ChallengeRecord)

def requirePhase (phase : ChallengePhase) : Outcome Unit :=
  require (record.phase = phase) .invalidChallengePhase

def requireAtOrBefore (height deadline : U64) : Outcome Unit :=
  require (height ≤ deadline) .challengeDeadlineMissed

/-- A step out of one phase into the next, at or before a deadline. -/
def advance (phase next : ChallengePhase) (deadline height : U64) : Outcome ChallengeRecord := do
  record.requirePhase phase
  requireAtOrBefore height deadline
  return refreshDigest sha256 { record with phase := next }

def submitEvidence (height : U64) : Outcome ChallengeRecord :=
  record.advance sha256 .opened .evidencePeriod record.evidenceDeadline height

def beginResponse (height : U64) : Outcome ChallengeRecord :=
  record.advance sha256 .evidencePeriod .responsePeriod record.responseDeadline height

def submitResponse (height : U64) : Outcome ChallengeRecord :=
  record.advance sha256 .responsePeriod .decisionPending record.responseDeadline height

/-- The phase that a decision leads to. Only two outcomes are decisions. -/
def decidedPhase : ChallengeFinalOutcome → Option ChallengePhase
  | .upheld => some .upheld
  | .rejected => some .rejected
  | .withdrawn | .expired => none

def decide (height : U64) (outcome : ChallengeFinalOutcome) : Outcome ChallengeRecord := do
  require ((record.phase = .decisionPending ∨ record.phase = .appealPending) ∧
    (outcome = .upheld ∨ outcome = .rejected)) .invalidChallengePhase
  requireAtOrBefore height record.decisionDeadline
  let phase ← getOr (decidedPhase outcome) .invalidChallengePhase
  return refreshDigest sha256 { record with phase, finalOutcome := some outcome }

def appeal (height appealDecisionDeadline : U64) : Outcome ChallengeRecord := do
  require (record.appealUsed = false) .appealAlreadyUsed
  require (record.phase = .upheld ∨ record.phase = .rejected) .invalidChallengePhase
  requireAtOrBefore height record.appealDeadline
  require (height ≤ appealDecisionDeadline) .challengeDeadlineMissed
  return refreshDigest sha256 { record with
    appealUsed := true, phase := .appealPending, finalOutcome := none,
    decisionDeadline := appealDecisionDeadline, appealDeadline := appealDecisionDeadline }

def finalize (height : U64) : Outcome ChallengeRecord := do
  require ((record.phase = .upheld ∨ record.phase = .rejected) ∧ record.appealDeadline < height)
    .invalidChallengePhase
  return refreshDigest sha256 { record with phase := .final }

/-- A record closed with an outcome of its own. -/
def close (outcome : ChallengeFinalOutcome) : ChallengeRecord :=
  refreshDigest sha256 { record with phase := .final, finalOutcome := some outcome }

def withdraw : Outcome ChallengeRecord := do
  require (record.phase ≠ .upheld ∧ record.phase ≠ .rejected ∧ record.phase ≠ .final ∧
    record.phase ≠ .appealPending) .invalidChallengePhase
  return record.close sha256 .withdrawn

/-- The deadline after which a record expires. -/
def expiryDeadline : Outcome U64 :=
  match record.phase with
  | .opened | .evidencePeriod => .ok record.evidenceDeadline
  | .responsePeriod => .ok record.responseDeadline
  | .decisionPending | .appealPending => .ok record.decisionDeadline
  | .upheld | .rejected | .final => .error .invalidChallengePhase

def expire (height : U64) : Outcome ChallengeRecord := do
  let deadline ← record.expiryDeadline
  require (deadline < height) .challengeDeadlineMissed
  return record.close sha256 .expired

end

end ChallengeRecord

/-! ## Runs -/

inductive ChallengeCall where
  | submitEvidence (height : U64)
  | beginResponse (height : U64)
  | submitResponse (height : U64)
  | decide (height : U64) (outcome : ChallengeFinalOutcome)
  | appeal (height appealDecisionDeadline : U64)
  | finalize (height : U64)
  | withdraw
  | expire (height : U64)

section
variable (sha256 : Bytes → Hash)

def transition (record : ChallengeRecord) : ChallengeCall → Outcome ChallengeRecord
  | .submitEvidence height => record.submitEvidence sha256 height
  | .beginResponse height => record.beginResponse sha256 height
  | .submitResponse height => record.submitResponse sha256 height
  | .decide height outcome => record.decide sha256 height outcome
  | .appeal height deadline => record.appeal sha256 height deadline
  | .finalize height => record.finalize sha256 height
  | .withdraw => record.withdraw sha256
  | .expire height => record.expire sha256 height

/-- A call on a record, which a refusal leaves as it is. -/
def perform (record : ChallengeRecord) (c : ChallengeCall) : Outcome Unit × ChallengeRecord :=
  match transition sha256 record c with
  | .ok record => (.ok (), record)
  | .error e => (.error e, record)

end

abbrev ChallengeTurn := Turn ChallengeRecord (ChallengeCall × Outcome Unit)

/-- The outcome that a call gives when it succeeds. -/
def ChallengeCall.verdict : ChallengeCall → Option ChallengeFinalOutcome
  | .decide _ outcome => some outcome
  | .withdraw => some .withdrawn
  | .expire _ => some .expired
  | _ => none

/-- The outcome of the last decision, withdrawal or expiry of the run. -/
def lastVerdict (ts : List ChallengeTurn) : Option ChallengeFinalOutcome :=
  (ts.filterMap fun t => if t.label.2 = .ok () then t.label.1.verdict else none).getLast?

section
variable {sha256 : Bytes → Hash} {record record' : ChallengeRecord} {c : ChallengeCall}
  {height deadline : U64} {phase next : ChallengePhase}

theorem advance_eq_ok : record.advance sha256 phase next deadline height = .ok record' ↔
    record.phase = phase ∧ height ≤ deadline ∧
      record' = ChallengeRecord.refreshDigest sha256 { record with phase := next } := by
  simp only [ChallengeRecord.advance, ChallengeRecord.requirePhase,
    ChallengeRecord.requireAtOrBefore, bind_eq_ok, pure_eq_ok, require_eq_ok, exists_const,
    eq_comm (a := record')]

theorem expire_eq_ok : record.expire sha256 height = .ok record' ↔
    ∃ deadline, record.expiryDeadline = .ok deadline ∧ deadline < height ∧
      record' = record.close sha256 .expired := by
  simp only [ChallengeRecord.expire, bind_eq_ok, pure_eq_ok, require_eq_ok, exists_const,
    eq_comm (a := record')]

theorem decide_eq_ok : record.decide sha256 height outcome = .ok record' ↔
      (record.phase = .decisionPending ∨ record.phase = .appealPending) ∧
        height ≤ record.decisionDeadline ∧
        ∃ phase, ChallengeRecord.decidedPhase outcome = some phase ∧
          record' = ChallengeRecord.refreshDigest sha256
            { record with phase, finalOutcome := some outcome } := by
  simp only [ChallengeRecord.decide, ChallengeRecord.requireAtOrBefore, bind_eq_ok, pure_eq_ok,
    require_eq_ok, getOr_eq_ok, exists_const, eq_comm (a := record')]
  cases outcome <;> simp [ChallengeRecord.decidedPhase]

theorem appeal_eq_ok : record.appeal sha256 height deadline = .ok record' ↔
    record.appealUsed = false ∧ (record.phase = .upheld ∨ record.phase = .rejected) ∧
      height ≤ record.appealDeadline ∧ height ≤ deadline ∧
      record' = ChallengeRecord.refreshDigest sha256 { record with
        appealUsed := true, phase := .appealPending, finalOutcome := none,
        decisionDeadline := deadline, appealDeadline := deadline } := by
  simp only [ChallengeRecord.appeal, ChallengeRecord.requireAtOrBefore, bind_eq_ok, pure_eq_ok,
    require_eq_ok, exists_const, eq_comm (a := record')]

theorem finalize_eq_ok : record.finalize sha256 height = .ok record' ↔
    (record.phase = .upheld ∨ record.phase = .rejected) ∧ record.appealDeadline < height ∧
      record' = ChallengeRecord.refreshDigest sha256 { record with phase := .final } := by
  simp only [ChallengeRecord.finalize, bind_eq_ok, pure_eq_ok, require_eq_ok, exists_const,
    and_assoc, eq_comm (a := record')]

theorem withdraw_eq_ok : record.withdraw sha256 = .ok record' ↔
    (record.phase ≠ .upheld ∧ record.phase ≠ .rejected ∧ record.phase ≠ .final ∧
      record.phase ≠ .appealPending) ∧ record' = record.close sha256 .withdrawn := by
  simp only [ChallengeRecord.withdraw, bind_eq_ok, pure_eq_ok, require_eq_ok, exists_const,
    eq_comm (a := record')]

/-- Nothing is left that a party could still do in time: no step out of the record's phase
succeeds. -/
def Overdue (sha256 : Bytes → Hash) (record : ChallengeRecord) (height : U64) : Prop :=
  ∀ c ∈ [ChallengeCall.submitEvidence height, .beginResponse height, .submitResponse height,
    .decide height .upheld, .decide height .rejected], ∀ record',
    transition sha256 record c ≠ .ok record'

/-- The evidence deadline has passed and the response may still begin. -/
def ResponseMayBegin (record : ChallengeRecord) (height : U64) : Prop :=
  record.phase = .evidencePeriod ∧ record.evidenceDeadline < height ∧
    height ≤ record.responseDeadline

/-- The deadline of a phase is the one that expiry takes, but for the evidence period. -/
theorem overdue_of_expire (hexpire : record.expire sha256 height = .ok record')
    (hbegin : ¬ ResponseMayBegin record height) : Overdue sha256 record height := by
  obtain ⟨deadline, hdeadline, hpassed, -⟩ := expire_eq_ok.mp hexpire
  have hlate {d : U64} (h : Except.ok d = (Except.ok deadline : Outcome U64)) : ¬ height ≤ d := by
    cases h
    exact not_le.mpr hpassed
  simp only [Overdue, List.forall_mem_cons, List.not_mem_nil, false_implies, implies_true, and_true,
    transition, ChallengeRecord.submitEvidence, ChallengeRecord.beginResponse,
    ChallengeRecord.submitResponse, ne_eq, advance_eq_ok, decide_eq_ok]
  rw [ChallengeRecord.expiryDeadline] at hdeadline
  cases hphase : record.phase with
  | evidencePeriod =>
    have hresponse : ¬ height ≤ record.responseDeadline := by
      intro hle
      rw [hphase] at hdeadline
      cases hdeadline
      exact hbegin ⟨hphase, hpassed, hle⟩
    simp [hresponse]
  | opened | responsePeriod | decisionPending | appealPending =>
    rw [hphase] at hdeadline
    simp [hlate hdeadline]
  | upheld | rejected | final => simp

theorem expire_of_responseMayBegin (h : ResponseMayBegin record height) (sha256 : Bytes → Hash) :
    (∃ record', record.expire sha256 height = .ok record') ∧ ¬ Overdue sha256 record height := by
  obtain ⟨hphase, hpassed, hbegin⟩ := h
  constructor
  · refine ⟨_, expire_eq_ok.mpr ⟨record.evidenceDeadline, ?_, hpassed, rfl⟩⟩
    rw [ChallengeRecord.expiryDeadline, hphase]
  · intro hover
    have hbegun : record.beginResponse sha256 height = .ok (ChallengeRecord.refreshDigest sha256
        { record with phase := .responsePeriod }) := advance_eq_ok.mpr ⟨hphase, hbegin, rfl⟩
    exact hover (.beginResponse height) (by simp) _ hbegun

theorem perform_final (hfinal : record.phase = .final) (c : ChallengeCall) :
    ∃ e, perform sha256 record c = (.error e, record) := by
  have hrefused : ∀ record', transition sha256 record c ≠ .ok record' := by
    intro record' h
    cases c with
    | submitEvidence height | beginResponse height | submitResponse height =>
      have hphase := (advance_eq_ok.mp h).1
      rw [hfinal] at hphase
      cases hphase
    | decide height outcome =>
      have hphase := (decide_eq_ok.mp h).1
      simp [hfinal] at hphase
    | expire height =>
      obtain ⟨deadline, hdeadline, -⟩ := expire_eq_ok.mp h
      rw [ChallengeRecord.expiryDeadline, hfinal] at hdeadline
      cases hdeadline
    | appeal height deadline =>
      have hphase := (appeal_eq_ok.mp h).2.1
      simp [hfinal] at hphase
    | finalize height =>
      have hphase := (finalize_eq_ok.mp h).1
      simp [hfinal] at hphase
    | withdraw => exact (withdraw_eq_ok.mp h).1.2.2.1 hfinal
  cases htransition : transition sha256 record c with
  | error e => exact ⟨e, by rw [perform, htransition]⟩
  | ok record' => exact absurd htransition (hrefused record')

/-! ## The outcome of a run -/

variable {ts : List ChallengeTurn} {t : ChallengeTurn}

theorem lastVerdict_append : lastVerdict (ts ++ [t]) =
    (if t.label.2 = .ok () then t.label.1.verdict else none).or (lastVerdict ts) := by
  rw [lastVerdict, List.filterMap_append, List.getLast?_append, lastVerdict]
  congr 1
  split <;> rename_i h
  · cases hverdict : t.label.1.verdict <;> simp [h, hverdict]
  · simp [h]

/-- A record that has been decided or closed carries the last verdict. -/
def Settled (ts : List ChallengeTurn) (record : ChallengeRecord) : Prop :=
  record.phase = .upheld ∨ record.phase = .rejected ∨ record.phase = .final →
    record.finalOutcome = lastVerdict ts ∧ lastVerdict ts ≠ none

theorem Settled.refused (h : Settled ts record)
    (hreply : t.label.2 = .error e) : Settled (ts ++ [t]) record := by
  intro hphase
  rw [lastVerdict_append, hreply, if_neg (by simp), Option.none_or]
  exact h hphase

theorem settled_verdict (hreply : t.label.2 = .ok ())
    (hverdict : t.label.1.verdict = some outcome) (houtcome : record.finalOutcome = some outcome) :
    Settled (ts ++ [t]) record := by
  intro _
  rw [lastVerdict_append, hreply, if_pos rfl, hverdict, houtcome, Option.some_or]
  exact ⟨rfl, Option.some_ne_none _⟩

theorem Settled.step (h : Settled ts record) (c : ChallengeCall) :
    Settled (ts ++ [callTurn (perform sha256) record c]) (perform sha256 record c).2 := by
  have hlabel : (callTurn (perform sha256) record c).label = (c, (perform sha256 record c).1) := rfl
  cases htransition : transition sha256 record c with
  | error e =>
    rw [perform, htransition] at hlabel ⊢
    exact h.refused (congrArg Prod.snd hlabel)
  | ok record' =>
    rw [perform, htransition] at hlabel ⊢
    have hreply : (callTurn (perform sha256) record c).label.2 = .ok () := congrArg Prod.snd hlabel
    have hcall : (callTurn (perform sha256) record c).label.1 = c := rfl
    cases c with
    | submitEvidence height | beginResponse height | submitResponse height =>
      obtain ⟨-, -, rfl⟩ := advance_eq_ok.mp htransition
      rintro (hphase | hphase | hphase) <;> cases hphase
    | decide height outcome =>
      obtain ⟨-, -, phase, -, rfl⟩ := decide_eq_ok.mp htransition
      exact settled_verdict hreply (congrArg _ hcall) rfl
    | appeal height deadline =>
      obtain ⟨-, -, -, -, rfl⟩ := appeal_eq_ok.mp htransition
      rintro (hphase | hphase | hphase) <;> cases hphase
    | finalize height =>
      obtain ⟨hdecided, -, rfl⟩ := finalize_eq_ok.mp htransition
      intro _
      have hbefore := h (hdecided.imp_right .inl)
      rw [lastVerdict_append, hreply, if_pos rfl, hcall, ChallengeCall.verdict, Option.none_or]
      · exact hbefore
      all_goals simp
    | withdraw =>
      obtain ⟨-, rfl⟩ := withdraw_eq_ok.mp htransition
      exact settled_verdict hreply (congrArg _ hcall) rfl
    | expire height =>
      obtain ⟨deadline, -, -, rfl⟩ := expire_eq_ok.mp htransition
      exact settled_verdict hreply (congrArg _ hcall) rfl

theorem settled_run (hfirst : first.phase = .opened) (cs : List ChallengeCall) :
    Settled (callTurns (perform sha256) first cs) (afterCalls (perform sha256) first cs) := by
  refine callTurns_induction ?_ (fun ts record c h => h.step c) cs
  rw [Settled, hfirst]
  rintro (hphase | hphase | hphase) <;> cases hphase

theorem phase_open
    (h : ChallengeRecord.open_ sha256 challengeId resultId challenger openedHeight
      windowEnd evidence response decision appeal = .ok first) : first.phase = .opened := by
  simp only [ChallengeRecord.open_, bind_eq_ok, pure_eq_ok] at h
  obtain ⟨-, -, -, -, -, -, -, -, rfl⟩ := h
  rfl

/-! ## Every challenge ends -/

/-- A bound on the calls that can still succeed. -/
def ChallengeRecord.callsLeft (record : ChallengeRecord) : Nat :=
  match record.phase with
  | .opened => 7
  | .evidencePeriod => 6
  | .responsePeriod => 5
  | .decisionPending => 4
  | .upheld | .rejected => if record.appealUsed then 1 else 3
  | .appealPending => if record.appealUsed then 2 else 4
  | .final => 0

theorem callsLeft_lt (hok : transition sha256 record c = .ok record') :
    record'.callsLeft < record.callsLeft := by
  unfold ChallengeRecord.callsLeft
  cases c with
  | submitEvidence height | beginResponse height | submitResponse height =>
    obtain ⟨hphase, -, rfl⟩ := advance_eq_ok.mp hok
    simp [ChallengeRecord.refreshDigest, hphase]
  | decide height outcome =>
    obtain ⟨hphase, -, phase, hdecided, rfl⟩ := decide_eq_ok.mp hok
    cases outcome <;> cases hdecided <;> grind [ChallengeRecord.refreshDigest]
  | appeal height deadline =>
    obtain ⟨hunused, hphase, -, -, rfl⟩ := appeal_eq_ok.mp hok
    grind [ChallengeRecord.refreshDigest]
  | finalize height =>
    obtain ⟨hphase, -, rfl⟩ := finalize_eq_ok.mp hok
    grind [ChallengeRecord.refreshDigest]
  | withdraw =>
    obtain ⟨hphase, rfl⟩ := withdraw_eq_ok.mp hok
    grind [ChallengeRecord.refreshDigest, ChallengeRecord.close]
  | expire height =>
    obtain ⟨deadline, hdeadline, -, rfl⟩ := expire_eq_ok.mp hok
    grind [ChallengeRecord.refreshDigest, ChallengeRecord.close, ChallengeRecord.expiryDeadline]

def successes (ts : List ChallengeTurn) : Nat := ts.countP (·.label.2 = .ok ())

theorem successes_add_callsLeft_le (first : ChallengeRecord) (cs : List ChallengeCall) :
    successes (callTurns (perform sha256) first cs) +
      (afterCalls (perform sha256) first cs).callsLeft ≤ first.callsLeft := by
  refine callTurns_induction
    (P := fun ts record => successes ts + record.callsLeft ≤ first.callsLeft) ?_ ?_ cs
  · simp [successes]
  · intro ts record c hle
    unfold successes at *
    rw [List.countP_append, callTurn, perform]
    cases hok : transition sha256 record c with
    | error e => simpa using hle
    | ok record' =>
      have hlt := callsLeft_lt hok
      simp only [List.countP_singleton, decide_true, if_true]
      omega

def ChallengeRecord.deadlines (record : ChallengeRecord) : List U64 :=
  [record.evidenceDeadline, record.responseDeadline, record.decisionDeadline, record.appealDeadline]

/-- A record past its deadlines is final, or can be finalized or expired. -/
theorem final_or_ends (hpast : ∀ deadline ∈ record.deadlines, deadline < height) :
    record.phase = .final ∨ ∃ c ∈ [ChallengeCall.finalize height, .expire height], ∃ record',
      transition sha256 record c = .ok record' ∧ record'.phase = .final := by
  refine or_iff_not_imp_left.mpr fun hfinal => ?_
  by_cases hdecided : record.phase = .upheld ∨ record.phase = .rejected
  · exact ⟨.finalize height, by simp, _,
      finalize_eq_ok.mpr ⟨hdecided, hpast _ (by simp [ChallengeRecord.deadlines]), rfl⟩, rfl⟩
  · obtain ⟨deadline, hexpiry, hmem⟩ :
        ∃ deadline, record.expiryDeadline = .ok deadline ∧ deadline ∈ record.deadlines := by
      unfold ChallengeRecord.expiryDeadline ChallengeRecord.deadlines
      cases hphase : record.phase <;> simp_all
    exact ⟨.expire height, by simp, _, expire_eq_ok.mpr ⟨deadline, hexpiry, hpast _ hmem, rfl⟩, rfl⟩

end

/-- After any calls on an opened challenge and at any height, an expiry that succeeds finds no party
in time exactly when the record is not in its evidence period with the evidence deadline behind and
the response deadline still ahead. A final record never changes again, and carries the outcome of
the last decision, of the withdrawal or of the expiry. -/
theorem expiry_finds_parties_overdue_iff (sha256 : Bytes → Hash)
    (challengeId resultId challenger : Hash)
    (openedHeight windowEnd evidence response decision appeal : U64) (first : ChallengeRecord)
      (hopen : ChallengeRecord.open_ sha256 challengeId resultId challenger openedHeight
      windowEnd evidence response decision appeal = .ok first) (cs : List ChallengeCall) :
    let ts := callTurns (perform sha256) first cs
    let record := afterCalls (perform sha256) first cs
    (∀ height, ((∃ record', record.expire sha256 height = .ok record') →
      Overdue sha256 record height) ↔ ¬ ResponseMayBegin record height) ∧
    (record.phase = .final → (∀ c, ∃ e, perform sha256 record c = (.error e, record)) ∧
      record.finalOutcome = lastVerdict ts ∧ lastVerdict ts ≠ none) := by
  intro ts record
  constructor
  · intro height
    constructor
    · intro h hbegin
      have ⟨hexpire, hnot⟩ := expire_of_responseMayBegin hbegin sha256
      exact hnot (h hexpire)
    · rintro hbegin ⟨record', hexpire⟩
      exact overdue_of_expire hexpire hbegin
  · intro hfinal
    exact ⟨perform_final hfinal, settled_run (phase_open hopen) cs (.inr (.inr hfinal))⟩

/-- A challenge opened at height 10, with deadlines at 30, 40, 50 and 60, and given its evidence. -/
def sampleFirst : ChallengeRecord :=
  ChallengeRecord.refreshDigest Hash.checksum ⟨.ofByte 80, .ofByte 81, .ofByte 82, .opened, 10, 30,
    40, 50, 60, false, none, ⟨List.replicate 32 1, rfl⟩⟩

def sampleEvidence : ChallengeRecord :=
  afterCalls (perform Hash.checksum) sampleFirst [.submitEvidence 20]

theorem open_sampleFirst :
    ChallengeRecord.open_ Hash.checksum (.ofByte 80) (.ofByte 81) (.ofByte 82)
    10 20 30 40 50 60 = .ok sampleFirst := rfl

/-- At height 41 the response is overdue. -/
theorem sample_expiry_finds_parties_overdue_iff :
    (∃ record', sampleEvidence.expire Hash.checksum 41 = .ok record') ∧
      Overdue Hash.checksum sampleEvidence 41 := by
  have hexpire : ∃ record', sampleEvidence.expire Hash.checksum 41 = .ok record' := ⟨_, rfl⟩
  have hiff := (expiry_finds_parties_overdue_iff _ _ _ _ _ _ _ _ _ _ _ open_sampleFirst
    [.submitEvidence 20]).1 41
  refine ⟨hexpire, hiff.mpr ?_ hexpire⟩
  rintro ⟨-, -, hahead⟩
  exact absurd hahead (by decide)

/-- The challenge expires at height 35, where its response could still begin. -/
theorem expiry_preempts_response : ∃ expired begun,
    sampleEvidence.expire Hash.checksum 35 = .ok expired ∧
      sampleEvidence.beginResponse Hash.checksum 35 = .ok begun :=
  ⟨_, _, rfl, rfl⟩

/-- An opened challenge takes at most seven successful calls, and past its deadlines it is final or
can be finalized or expired. -/
theorem challenge_ends (sha256 : Bytes → Hash) {first : ChallengeRecord}
    (hopened : first.phase = .opened) (cs : List ChallengeCall) :
    successes (callTurns (perform sha256) first cs) ≤ 7 ∧
    let record := afterCalls (perform sha256) first cs
    ∀ height, (∀ deadline ∈ record.deadlines, deadline < height) →
      record.phase = .final ∨ ∃ c ∈ [ChallengeCall.finalize height, .expire height], ∃ record',
        transition sha256 record c = .ok record' ∧ record'.phase = .final := by
  have hbound := @successes_add_callsLeft_le sha256 first cs
  have hseven : first.callsLeft = 7 := by rw [ChallengeRecord.callsLeft, hopened]
  exact ⟨by omega, fun _ hpast => final_or_ends hpast⟩

theorem sampleFirst_ends : sampleFirst.phase = .opened ∧
    successes (callTurns (perform Hash.checksum) sampleFirst [.submitEvidence 20, .expire 50]) ≤
      7 :=
  ⟨phase_open open_sampleFirst, (challenge_ends _ (phase_open open_sampleFirst) _).1⟩

end Trillionnium.Verification
