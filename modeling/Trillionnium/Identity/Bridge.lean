import Trillionnium.Lib.Calls
import Trillionnium.Lib.Checked
import Trillionnium.Lib.Text

/-!
# Settlement over a bridge

A settlement record is pending until a call finalizes or reverts it. The calls take the record by
mutable reference. Texts are trimmed before they are stored, and a revert reason that is one of the
spellings of a known reason is stored under one name; since that name stands for itself, a terminal
record can be submitted again and is not changed by it.
-/

namespace Trillionnium.Bridge

open Lib Lib.Text

inductive SettlementStatus
  | pending | finalized | reverted
  deriving DecidableEq

structure BridgeRoute where
  routeId : String
  sourceChain : String
  targetChain : String
  deriving DecidableEq

structure SettlementRecord where
  settlementId : U64
  route : BridgeRoute
  status : SettlementStatus
  atHeight : U64
  settlementTx : Option String
  revertReason : Option String
  deriving DecidableEq

/-- `InteropIdentityError`, as far as settlements use it. -/
inductive SettlementError
  | invalidSettlementTransition (current next : SettlementStatus)
  | invalidSettlementHeightRegression (currentAt nextAt : U64)
  | settlementTerminalPayloadConflict (status : SettlementStatus) (existing provided : String)
  | invalidSettlementReceiptStatus (expected got : UInt8)
  | missingSettlementTx
  | missingRevertReason

def settlementTxReceiptSuccess : UInt8 := 1

namespace SettlementStatus

def canTransitionTo (current next : SettlementStatus) : Bool :=
  current = next || (current = .pending && (next = .finalized || next = .reverted))

def transition (current next : SettlementStatus) : Except SettlementError SettlementStatus := do
  require (current.canTransitionTo next = true) (.invalidSettlementTransition current next)
  pure next

end SettlementStatus

/-! ## Revert reasons -/

/-- Lower-case letters and digits, with one hyphen for whatever stands between them. -/
def hyphenated : Bool → List Char → List Char
  | _, [] => []
  | prevSep, c :: rest =>
    if c.toLower.isAlphanum then c.toLower :: hyphenated false rest
    else if prevSep then hyphenated true rest
    else '-' :: hyphenated true rest

def normalizeRevertReason (reason : String) : String :=
  let canonical := String.ofList (trimEndMatches (· = '-') (hyphenated false (trim reason).toList))
  if canonical = "fraud-proof" ∨ canonical = "fraudproof" then "fraud-proof"
  else if canonical = "tee-receipt" ∨ canonical = "tee-attestation" then "tee-receipt"
  else if canonical = "zk-receipt" ∨ canonical = "zk-proof" then "zk-receipt"
  else reason

/-! ## Calls -/

/-- The arguments of `apply_status_with_receipt_status`. -/
structure StatusCall where
  target : SettlementStatus
  atHeight : U64
  settlementTx : Option String
  txReceiptStatus : Option UInt8
  revertReason : Option String

def provided (text : Option String) : Option String := (text.map trim).filter (· ≠ "")

/-- A payload that is submitted again has to be the one that is stored, as `normalize` reads it. -/
def ensureSamePayload (current status : SettlementStatus) (normalize : String → String)
    (existing provided : Option String) : Except SettlementError Unit :=
  if current = status then
    match existing, provided with
    | some existing, some provided =>
      require (normalize existing = provided)
        (.settlementTerminalPayloadConflict status existing provided)
    | _, _ => pure ()
  else pure ()

/-- The transaction and the reason that are stored with the new status. -/
def nextPayloads (record : SettlementRecord) (call : StatusCall) :
    Except SettlementError (Option String × Option String) :=
  match call.target with
  | .finalized => do
    let got := call.txReceiptStatus.getD settlementTxReceiptSuccess
    require (got = settlementTxReceiptSuccess) (.invalidSettlementReceiptStatus
      settlementTxReceiptSuccess got)
    let providedTx := provided call.settlementTx
    ensureSamePayload record.status .finalized id record.settlementTx providedTx
    let tx ← getOr (providedTx.or record.settlementTx) .missingSettlementTx
    pure (some tx, none)
  | .reverted => do
    let providedReason := (provided call.revertReason).map normalizeRevertReason
    ensureSamePayload record.status .reverted normalizeRevertReason record.revertReason
      providedReason
    let reason ← getOr (providedReason.or (record.revertReason.map normalizeRevertReason))
      .missingRevertReason
    pure (none, some reason)
  | .pending => pure (none, none)

def applyStatusWithReceiptStatus (call : StatusCall) :
    EStateM SettlementError SettlementRecord Unit := do
  let record ← get
  lift (require (record.atHeight ≤ call.atHeight)
    (.invalidSettlementHeightRegression record.atHeight call.atHeight))
  let nextStatus ← lift (record.status.transition call.target)
  let (nextSettlementTx, nextRevertReason) ← lift (nextPayloads record call)
  modify fun record => { record with
    status := nextStatus
    atHeight := call.atHeight
    settlementTx := nextSettlementTx
    revertReason := nextRevertReason }

/-! ## What is said of a run -/

/-- What a call submits for the status that it asks for, trimmed and under its one name. -/
def StatusCall.payload (call : StatusCall) : Option String :=
  match call.target with
  | .finalized => provided call.settlementTx
  | .reverted => (provided call.revertReason).map normalizeRevertReason
  | .pending => none

/-- The receipt is not asked for or says success; only a finalization reads it. -/
def StatusCall.ReceiptOk (call : StatusCall) : Prop :=
  call.target = .finalized → call.txReceiptStatus.getD settlementTxReceiptSuccess =
    settlementTxReceiptSuccess

namespace SettlementRecord

/-- The payloads that go with the status. -/
def WellFormed (record : SettlementRecord) : Prop :=
  match record.status with
  | .finalized => (∃ tx, record.settlementTx = some tx ∧ trim tx ≠ "") ∧ record.revertReason = none
  | .reverted => (∃ reason, record.revertReason = some reason ∧ trim reason ≠ "") ∧
    record.settlementTx = none
  | .pending => record.settlementTx = none ∧ record.revertReason = none

/-- Once a record is terminal, nothing of it changes but its height, and that only upwards. -/
structure Follows (record record' : SettlementRecord) : Prop where
  height : record.atHeight ≤ record'.atHeight
  terminal : record.status ≠ .pending → record' = { record with atHeight := record'.atHeight }

end SettlementRecord

abbrev BridgeTurn := Turn SettlementRecord (Answer StatusCall SettlementError Unit)

/-- The turns of a run of calls, and the record after them. -/
abbrev Run (start : SettlementRecord) (ts : List BridgeTurn) (record : SettlementRecord) : Prop :=
  Runs applyStatusWithReceiptStatus (fun _ => False) start ts record

/-- What holds after every run. -/
structure Terminal (start : SettlementRecord) (ts : List BridgeTurn) (record : SettlementRecord) :
    Prop where
  wellFormed : record.WellFormed
  follows : start.Follows record ∧ ∀ t ∈ ts, t.before.Follows record ∧ t.after.Follows record
  failed : ∀ t ∈ ts, ∀ e, t.label.reply = .error e → t.after = t.before
  resubmitted : ∀ t ∈ ts, t.label.reply = .ok () → t.label.call.target ≠ .pending →
    ∀ call : StatusCall, call.target = t.label.call.target → call.payload = t.label.call.payload →
      call.ReceiptOk →
      record.atHeight ≤ call.atHeight →
        (applyStatusWithReceiptStatus call).run record =
          .ok () { record with atHeight := call.atHeight }

/-! ## One call -/

section
variable {record record' : SettlementRecord} {call : StatusCall} {reason s : String}
  {text : Option String}

/-- The one name of a reason stands for itself. -/
theorem normalizeRevertReason_idem :
    normalizeRevertReason (normalizeRevertReason reason) = normalizeRevertReason reason := by
  have hfraud : normalizeRevertReason "fraud-proof" = "fraud-proof" := by decide +kernel
  have htee : normalizeRevertReason "tee-receipt" = "tee-receipt" := by decide +kernel
  have hzk : normalizeRevertReason "zk-receipt" = "zk-receipt" := by decide +kernel
  generalize hnormal : normalizeRevertReason reason = normal
  have hcases : normal = "fraud-proof" ∨ normal = "tee-receipt" ∨ normal = "zk-receipt" ∨
      normal = reason := by
    rw [← hnormal, normalizeRevertReason]
    split_ifs <;> simp
  rcases hcases with rfl | rfl | rfl | rfl
  · exact hfraud
  · exact htee
  · exact hzk
  · exact hnormal

theorem trim_normalizeRevertReason (h : trim reason ≠ "") :
    trim (normalizeRevertReason reason) ≠ "" := by
  have hnames : ∀ name ∈ ["fraud-proof", "tee-receipt", "zk-receipt"], trim name ≠ "" := by
    decide +kernel
  unfold normalizeRevertReason
  dsimp only
  split_ifs
  · exact hnames _ (by simp)
  · exact hnames _ (by simp)
  · exact hnames _ (by simp)
  · exact h

theorem trim_provided (h : provided text = some s) : trim s ≠ "" := by
  simp only [provided, Option.filter_eq_some_iff, Option.map_eq_some_iff, decide_eq_true_eq] at h
  obtain ⟨⟨raw, -, rfl⟩, hne⟩ := h
  rwa [trim_trim]

theorem StatusCall.trim_payload (h : call.payload = some s) : trim s ≠ "" := by
  unfold payload at h
  split at h
  · exact trim_provided h
  · obtain ⟨raw, hraw, rfl⟩ := Option.map_eq_some_iff.mp h
    exact trim_normalizeRevertReason (trim_provided hraw)
  · cases h

/-- What the record stores for a status, under its one name. -/
def SettlementRecord.stored (record : SettlementRecord) : SettlementStatus → Option String
  | .finalized => record.settlementTx
  | .reverted => record.revertReason.map normalizeRevertReason
  | .pending => none

/-- The record after a call that is accepted with this payload. -/
def SettlementRecord.settle (record : SettlementRecord) (call : StatusCall)
    (payload : Option String) : SettlementRecord :=
  { record with
    status := call.target
    atHeight := call.atHeight
    settlementTx := if call.target = .finalized then payload else none
    revertReason := if call.target = .reverted then payload else none }

/-- The payload that is submitted for the status of the record is the one that is stored. -/
def SamePayload (record : SettlementRecord) (call : StatusCall) : Prop :=
  record.status = call.target → ∀ existing text, record.stored call.target = some existing →
    call.payload = some text → existing = text

/-- When a call is accepted, and the payload that is stored. -/
structure Accepted (record : SettlementRecord) (call : StatusCall) (text : Option String) :
    Prop where
  height : record.atHeight ≤ call.atHeight
  transition : record.status = call.target ∨ record.status = .pending
  receipt : call.ReceiptOk
  same : SamePayload record call
  payload : call.payload.or (record.stored call.target) = text
  present : call.target ≠ .pending → text ≠ none

theorem ensureSamePayload_eq_ok {current status : SettlementStatus} {normalize : String → String}
    {existing text : Option String} :
    ensureSamePayload current status normalize existing text = .ok () ↔
      (current = status → ∀ e t, existing.map normalize = some e → text = some t → e = t) := by
  unfold ensureSamePayload
  by_cases h : current = status
  · cases existing <;> cases text <;> simp [h, require_eq_ok, pure_eq_ok]
  · simp [h, pure_eq_ok]

theorem transition_eq_ok {current next status : SettlementStatus} :
    current.transition next = .ok status ↔
    (current = next ∨ current = .pending) ∧ next = status := by
  simp only [SettlementStatus.transition, bind_eq_ok, require_eq_ok, pure_eq_ok, exists_and_left,
    exists_const]
  cases current <;> cases next <;> simp [SettlementStatus.canTransitionTo]

theorem nextPayloads_eq_ok {payloads : Option String × Option String} :
    nextPayloads record call = .ok payloads ↔ ∃ text, call.ReceiptOk ∧ SamePayload record call ∧
      call.payload.or (record.stored call.target) = text ∧ (call.target ≠ .pending → text ≠ none) ∧
      payloads = (if call.target = .finalized then text else none, if call.target = .reverted then
        text else none) := by
  unfold nextPayloads StatusCall.ReceiptOk SamePayload StatusCall.payload SettlementRecord.stored
  cases call.target with
  | finalized =>
    simp only [bind_eq_ok, require_eq_ok, getOr_eq_ok, pure_eq_ok]
    constructor
    · rintro ⟨_, hreceipt, _, hsame, tx, htx, rfl⟩
      rw [ensureSamePayload_eq_ok, Option.map_id_apply] at hsame
      exact ⟨some tx, fun _ => hreceipt, hsame, htx, fun _ => Option.some_ne_none _, rfl⟩
    · rintro ⟨text, hreceipt, hsame, htext, hpresent, rfl⟩
      obtain ⟨tx, rfl⟩ := Option.ne_none_iff_exists'.mp (hpresent (by decide))
      refine ⟨(), hreceipt trivial, (), ?_, tx, htext, rfl⟩
      rwa [ensureSamePayload_eq_ok, Option.map_id_apply]
  | reverted =>
    simp only [bind_eq_ok, getOr_eq_ok, pure_eq_ok]
    constructor
    · rintro ⟨_, hsame, reason, hreason, rfl⟩
      exact ⟨some reason, by simp, ensureSamePayload_eq_ok.mp hsame, hreason,
        fun _ => Option.some_ne_none _, rfl⟩
    · rintro ⟨text, -, hsame, htext, hpresent, rfl⟩
      obtain ⟨reason, rfl⟩ := Option.ne_none_iff_exists'.mp (hpresent (by decide))
      exact ⟨(), ensureSamePayload_eq_ok.mpr hsame, reason, htext, rfl⟩
  | pending =>
    rw [pure_eq_ok]
    simp [eq_comm]

theorem apply_safe : Safe (applyStatusWithReceiptStatus call) record fun _ record' =>
    ∃ text, Accepted record call text ∧ record' = record.settle call text := by
  refine .get_bind (.lift_bind fun _ hheight => .lift_bind fun next htransition =>
    .lift_bind fun payloads h => ?_)
  rw [require_eq_ok] at hheight
  obtain ⟨hfrom, rfl⟩ := transition_eq_ok.mp htransition
  obtain ⟨text, hreceipt, hsame, hpayload, hpresent, rfl⟩ := nextPayloads_eq_ok.mp h
  exact .of_run rfl ⟨text, ⟨hheight, hfrom, hreceipt, hsame, hpayload, hpresent⟩, rfl⟩

theorem Accepted.run (h : Accepted record call text) :
    (applyStatusWithReceiptStatus call).run record = .ok () (record.settle call text) := by
  have htransition := transition_eq_ok.mpr ⟨h.transition, rfl⟩
  have hpayloads := nextPayloads_eq_ok.mpr ⟨text, h.receipt, h.same, h.payload, h.present, rfl⟩
  have hheight : require (record.atHeight ≤ call.atHeight)
      (SettlementError.invalidSettlementHeightRegression record.atHeight call.atHeight) = .ok () :=
    require_eq_ok.mpr h.height
  rw [applyStatusWithReceiptStatus, run_get_bind, hheight, run_lift_ok_bind, htransition,
    run_lift_ok_bind, hpayloads, run_lift_ok_bind]
  rfl

/-! ## Invariants -/

/-- The payloads go with the status, and a reason is stored under its one name. -/
structure Canonical (record : SettlementRecord) : Prop where
  wellFormed : record.WellFormed
  reason : record.revertReason.map normalizeRevertReason = record.revertReason

theorem stored_reverted_map :
    (record.stored .reverted).map normalizeRevertReason = record.stored .reverted := by
  simp only [SettlementRecord.stored, Option.map_map, Function.comp_def, normalizeRevertReason_idem]

theorem StatusCall.payload_reverted_map (h : call.target = .reverted) :
    call.payload.map normalizeRevertReason = call.payload := by
  simp only [payload, h, Option.map_map, Function.comp_def, normalizeRevertReason_idem]

namespace Canonical

theorem trim_stored (h : Canonical record)
    (htarget : record.status = target ∨ record.status = .pending)
    (hstored : record.stored target = some s) :
    trim s ≠ "" := by
  have hwell := h.wellFormed
  unfold SettlementRecord.WellFormed at hwell
  cases target with
  | finalized =>
    rcases htarget with hstatus | hstatus <;> rw [hstatus] at hwell
    · obtain ⟨⟨tx, htx, htrim⟩, -⟩ := hwell
      exact Option.some.inj (htx.symm.trans hstored) ▸ htrim
    · cases hwell.1.symm.trans hstored
  | reverted =>
    rw [SettlementRecord.stored, h.reason] at hstored
    rcases htarget with hstatus | hstatus <;> rw [hstatus] at hwell
    · obtain ⟨⟨reason, hreason, htrim⟩, -⟩ := hwell
      exact Option.some.inj (hreason.symm.trans hstored) ▸ htrim
    · cases hwell.2.symm.trans hstored
  | pending => cases hstored

theorem settle (h : Canonical record) (haccepted : Accepted record call text) :
    Canonical (record.settle call text) := by
  have htrim : ∀ s, text = some s → trim s ≠ "" := by
    rintro s rfl
    rcases Option.or_eq_some_iff.mp haccepted.payload with hpayload | ⟨-, hstored⟩
    · exact StatusCall.trim_payload hpayload
    · exact h.trim_stored haccepted.transition hstored
  have hpresent := haccepted.present
  unfold SettlementRecord.settle
  cases htarget : call.target with
  | finalized =>
    obtain ⟨tx, rfl⟩ := Option.ne_none_iff_exists'.mp (hpresent (htarget ▸ nofun))
    exact ⟨⟨⟨tx, rfl, htrim tx rfl⟩, rfl⟩, rfl⟩
  | reverted =>
    obtain ⟨reason, rfl⟩ := Option.ne_none_iff_exists'.mp (hpresent (htarget ▸ nofun))
    refine ⟨⟨⟨reason, rfl, htrim reason rfl⟩, rfl⟩, ?_⟩
    change (some reason).map normalizeRevertReason = some reason
    rw [← haccepted.payload, Option.map_or, StatusCall.payload_reverted_map htarget, htarget,
      stored_reverted_map]
  | pending => exact ⟨⟨rfl, rfl⟩, rfl⟩

/-- What is accepted for a terminal record is what it stores. -/
theorem settle_eq (h : Canonical record) (haccepted : Accepted record call text)
    (hterminal : record.status ≠ .pending) :
    record.settle call text = { record with atHeight := call.atHeight } := by
  have hstatus := haccepted.transition.resolve_right hterminal
  have hwell := h.wellFormed
  have htext : record.stored call.target ≠ none → text = record.stored call.target := by
    intro hstored
    obtain ⟨existing, hexisting⟩ := Option.ne_none_iff_exists'.mp hstored
    rw [← haccepted.payload, hexisting]
    cases hpayload : call.payload with
    | none => rfl
    | some s => exact congrArg some (haccepted.same hstatus existing s hexisting hpayload).symm
  obtain ⟨id, route, status, atHeight, settlementTx, revertReason⟩ := record
  obtain rfl : status = call.target := hstatus
  have hreason := h.reason
  unfold SettlementRecord.WellFormed at hwell
  unfold SettlementRecord.settle
  cases htarget : call.target with
  | finalized =>
    simp only [htarget, SettlementRecord.stored] at hwell htext ⊢
    obtain ⟨⟨tx, rfl, -⟩, rfl⟩ := hwell
    rw [htext nofun]
    rfl
  | reverted =>
    simp only [htarget, SettlementRecord.stored] at hwell htext hreason ⊢
    obtain ⟨⟨reason, rfl, -⟩, rfl⟩ := hwell
    rw [htext nofun, hreason]
    rfl
  | pending => exact absurd htarget hterminal

end Canonical

theorem SettlementRecord.Follows.refl : record.Follows record := ⟨le_rfl, fun _ => rfl⟩

theorem SettlementRecord.Follows.trans (h : record.Follows record')
    (h' : record'.Follows record'') : record.Follows record'' := by
  refine ⟨h.height.trans h'.height, fun hterminal => ?_⟩
  have hsame := h.terminal hterminal
  have hterminal' : record'.status ≠ .pending := by rwa [hsame]
  rw [h'.terminal hterminal', hsame]

theorem Accepted.follows (h : Canonical record) (haccepted : Accepted record call text) :
    record.Follows (record.settle call text) :=
  ⟨haccepted.height, h.settle_eq haccepted⟩

/-- An accepted terminal call leaves its status and its payload. -/
def Submitted (t : BridgeTurn) : Prop :=
  t.label.reply = .ok () → t.label.call.target ≠ .pending → t.after.status = t.label.call.target ∧
    ∀ s, t.label.call.payload = some s → t.after.stored t.label.call.target = some s

theorem Accepted.submitted (h : Accepted record call text) :
    Submitted ⟨record, ⟨call, .ok ()⟩, record.settle call text⟩ := by
  refine fun _ hterminal => ⟨rfl, fun s hs => ?_⟩
  have htext : text = some s := by rw [← h.payload, hs, Option.some_or]
  dsimp only at hs hterminal ⊢
  unfold SettlementRecord.settle
  cases htarget : call.target with
  | finalized => simp [SettlementRecord.stored, htext]
  | reverted =>
    have hnormal := StatusCall.payload_reverted_map htarget
    rw [hs] at hnormal
    simpa [SettlementRecord.stored, htext] using hnormal
  | pending => exact absurd htarget hterminal

/-- A payload that was accepted before is accepted again. -/
theorem Canonical.accepted (h : Canonical record) (hterminal : record.status ≠ .pending)
    (hstatus : record.status = call.target)
    (hpayload : ∀ s, call.payload = some s → record.stored call.target = some s)
    (hreceipt : call.ReceiptOk) (hheight : record.atHeight ≤ call.atHeight) :
    Accepted record call (record.stored call.target) := by
  refine ⟨hheight, .inl hstatus, hreceipt, fun _ existing s hexisting hs => ?_, ?_, fun _ => ?_⟩
  · exact Option.some.inj (hexisting.symm.trans (hpayload s hs))
  · cases hs : call.payload with
    | none => rfl
    | some s => exact (hpayload s hs).symm
  · have hwell := h.wellFormed
    unfold SettlementRecord.WellFormed at hwell
    rw [← hstatus]
    cases hcase : record.status with
    | finalized =>
      rw [hcase] at hwell
      obtain ⟨⟨tx, htx, -⟩, -⟩ := hwell
      simp [SettlementRecord.stored, htx]
    | reverted =>
      rw [hcase] at hwell
      obtain ⟨⟨reason, hreason, -⟩, -⟩ := hwell
      simp [SettlementRecord.stored, hreason]
    | pending => exact absurd hcase hterminal

/-! ## Runs -/

structure Kept (start : SettlementRecord) (ts : List BridgeTurn) (record : SettlementRecord) :
    Prop where
  canonical : Canonical record
  follows : start.Follows record ∧ ∀ t ∈ ts, t.before.Follows record ∧ t.after.Follows record
  failed : ∀ t ∈ ts, ∀ e, t.label.reply = .error e → t.after = t.before
  submitted : ∀ t ∈ ts, Submitted t

variable {start : SettlementRecord} {ts : List BridgeTurn}

theorem Kept.snoc (h : Kept start ts record) (haccepted : Accepted record call text) :
    Kept start (ts ++ [⟨record, ⟨call, .ok ()⟩, record.settle call text⟩])
      (record.settle call text) := by
  have hstep := haccepted.follows h.canonical
  refine ⟨h.canonical.settle haccepted, ⟨h.follows.1.trans hstep, ?_⟩, ?_, ?_⟩
  · refine List.forall_mem_append.mpr ⟨fun t ht => ?_, List.forall_mem_singleton.mpr ⟨hstep, .refl⟩⟩
    exact ⟨(h.follows.2 t ht).1.trans hstep, (h.follows.2 t ht).2.trans hstep⟩
  · exact List.forall_mem_append.mpr ⟨h.failed, List.forall_mem_singleton.mpr nofun⟩
  · exact List.forall_mem_append.mpr ⟨h.submitted,
      List.forall_mem_singleton.mpr haccepted.submitted⟩

theorem Kept.snoc_failed (h : Kept start ts record) :
    Kept start (ts ++ [⟨record, ⟨call, .error e⟩, record⟩]) record := by
  refine ⟨h.canonical, ⟨h.follows.1, ?_⟩, ?_, ?_⟩
  · exact List.forall_mem_append.mpr ⟨h.follows.2, List.forall_mem_singleton.mpr ⟨.refl, .refl⟩⟩
  · exact List.forall_mem_append.mpr ⟨h.failed, List.forall_mem_singleton.mpr fun _ _ => rfl⟩
  · exact List.forall_mem_append.mpr ⟨h.submitted, List.forall_mem_singleton.mpr nofun⟩

theorem run_kept (hstatus : start.status = .pending) (htx : start.settlementTx = none)
    (hreason : start.revertReason = none) (h : Run start ts record) : Kept start ts record := by
  refine Runs.induction (fun _ _ => apply_safe) ⟨⟨?_, ?_⟩, ⟨.refl, ?_⟩, ?_, ?_⟩ ?_ ?_ h
  · rw [SettlementRecord.WellFormed, hstatus]
    exact ⟨htx, hreason⟩
  · rw [hreason]
    rfl
  iterate 3 exact fun t ht => absurd ht List.not_mem_nil
  · rintro ts t call _ _ hts ⟨text, haccepted, rfl⟩
    exact hts.snoc haccepted
  · exact fun ts t call e hts => hts.snoc_failed

/-- No call crashes. -/
theorem run_attempt (start : SettlementRecord) (calls : List StatusCall) :
    Run start (attempt applyStatusWithReceiptStatus start calls).1
      (attempt applyStatusWithReceiptStatus start calls).2 := by
  simpa using Runs.nil.attempt calls fun _ _ _ _ => not_false

/-- Settlement is final in every run of calls on a pending record without payloads. -/
theorem run_terminal (hstatus : start.status = .pending) (htx : start.settlementTx = none)
    (hreason : start.revertReason = none) (h : Run start ts record) : Terminal start ts record := by
  have hkept := run_kept hstatus htx hreason h
  refine ⟨hkept.canonical.wellFormed, hkept.follows, hkept.failed, ?_⟩
  intro t ht hok hterminal call htarget hpayload hreceipt hheight
  obtain ⟨hafter, hstored⟩ := hkept.submitted t ht hok hterminal
  have hsame := (hkept.follows.2 t ht).2.terminal (hafter ▸ hterminal)
  have hstatus : record.status = call.target := by
    rw [hsame, htarget]
    exact hafter
  have hne : record.status ≠ .pending := by rwa [hstatus, htarget]
  have haccepted := hkept.canonical.accepted hne hstatus (fun s hs => ?_) hreceipt hheight
  · rw [haccepted.run, hkept.canonical.settle_eq haccepted hne]
  · rw [hsame, htarget]
    exact hstored s (hpayload ▸ hs)

end

def samplePending : SettlementRecord := ⟨7, ⟨"r", "a", "b"⟩, .pending, 3, none, none⟩

/-- Three spellings of one reason, a reason of its own, and a late finalization. -/
def sampleCalls : List StatusCall :=
  [⟨.reverted, 5, none, none, some " Fraud Proof "⟩, ⟨.reverted, 6, none, none, some "FRAUDPROOF"⟩,
    ⟨.reverted, 6, some "tx", some 0, some "fraud--proof!"⟩, ⟨.reverted, 7, none, none,
      some "timeout"⟩,
    ⟨.finalized, 8, some "tx", none, none⟩]

theorem sampleCalls_terminal : Terminal samplePending
    (attempt applyStatusWithReceiptStatus samplePending sampleCalls).1
    (attempt applyStatusWithReceiptStatus samplePending sampleCalls).2 ∧
      (attempt applyStatusWithReceiptStatus samplePending sampleCalls).2 =
        { samplePending with
          status := .reverted, atHeight := 6, revertReason := some "fraud-proof" } :=
  ⟨run_terminal rfl rfl rfl (run_attempt samplePending sampleCalls), by decide +kernel⟩

end Trillionnium.Bridge
