import Trillionnium.Identity.Registry

/-!
# What a call of the registry does

`Step` says all that a call does when it returns. A call makes its checks before its first write; a
panic of the counters ends the process, so what it leaves is not described.
-/

namespace Trillionnium.Identity

open Lib IdentityRegistry OrdMap

def Crash (e : Failure) : Prop := ∃ message, e = .panicked message

/-- The record that an event is about: an identifier, or a token of one. -/
inductive Target
  | did (name : String)
  | token (subjectDid : String)

def AuditEvent.target (event : AuditEvent) : Target :=
  match event.action with
  | .didRegistered | .didRevoked => .did event.subject
  | _ => .token event.subject

/-- Events about the given records, numbered on from a trail of `n` events. The length is cast to
64 bits before the number is computed. -/
structure Recorded (n : Nat) (targets : List Target) (events : List AuditEvent) : Prop where
  targets : events.map AuditEvent.target = targets
  seqs : events.map (fun event => event.seq.toNat) =
    (List.range' n events.length).map (· % 2 ^ 64 + 1)

/-- What the loop of `revoke_did` does: every listed token of `did` is revoked, with one event. -/
structure Cascaded (did : String) (anchor : U64) (ids : List U64) (r r' : IdentityRegistry) :
    Prop where
  dids : r'.dids = r.dids
  next : r'.nextCapabilityId = r.nextCapabilityId
  tokens : ∀ id, r'.capabilities.get id =
    if id ∈ ids then (r.capabilities.get id).map (CapabilityToken.cascade anchor)
    else r.capabilities.get id
  trail : ∃ events, r'.auditTrail = r.auditTrail ++ events ∧
    Recorded r.auditTrail.length (ids.map fun _ => .token did) events

/-- The effect of a call that returns. -/
inductive Step (r : IdentityRegistry) : Call → Option U64 → IdentityRegistry → Prop
  | registerDid {did controller : String} {atHeight : U64} {event : AuditEvent}
      (hnew : r.dids.get did = none) (hevent : Recorded r.auditTrail.length [.did did] [event]) :
      Step r (.registerDid did controller atHeight) none
        (addEvent event (setDid did ⟨did, controller, atHeight, none⟩ r))
  | issueCapability {actor subjectDid : String} {scope : CapabilityScope} {atHeight : U64}
      {expiresAt : Option U64} {tokenId : U64} {did : DidRecord} {event : AuditEvent}
      (hdid : r.dids.get subjectDid = some did) (hactive : did.revokedAt = none)
      (hactor : did.controller = actor) (hcreated : did.createdAt ≤ atHeight)
      (hid : tokenId.toNat = r.nextCapabilityId.toNat + 1)
      (hevent : Recorded r.auditTrail.length [.token subjectDid] [event]) :
      Step r (.issueCapability actor subjectDid scope atHeight expiresAt) (some tokenId)
        (addEvent event (setToken tokenId ⟨tokenId, subjectDid, scope, atHeight, expiresAt, none⟩
          { r with nextCapabilityId := tokenId }))
  | revokeAgain {actor : String} {tokenId atHeight : U64} {note : Option String}
      {token : CapabilityToken} {did : DidRecord}
      (htoken : r.capabilities.get tokenId = some token)
      (hdid : r.dids.get token.subjectDid = some did) (hactor : did.controller = actor) :
      Step r (.revokeCapability actor tokenId atHeight note) none r
  | revokeCapability {actor : String} {tokenId atHeight : U64} {note : Option String}
      {token : CapabilityToken} {did : DidRecord} {event : AuditEvent}
      (htoken : r.capabilities.get tokenId = some token)
      (hdid : r.dids.get token.subjectDid = some did) (hactor : did.controller = actor)
      (hfirst : token.revokedAt = none) (hissued : token.issuedAt ≤ atHeight)
      (hevent : Recorded r.auditTrail.length [.token token.subjectDid] [event]) :
      Step r (.revokeCapability actor tokenId atHeight note) none
        (addEvent event (setToken tokenId { token with revokedAt := some atHeight } r))
  | renewAgain {actor : String} {tokenId atHeight : U64} {expiresAt : Option U64}
      {token : CapabilityToken} {did : DidRecord}
      (htoken : r.capabilities.get tokenId = some token)
      (hdid : r.dids.get token.subjectDid = some did) (hactor : did.controller = actor) :
      Step r (.renewCapability actor tokenId atHeight expiresAt) none r
  | renewCapability {actor : String} {tokenId atHeight : U64} {expiresAt : Option U64}
      {token : CapabilityToken} {did : DidRecord} {event : AuditEvent}
      (htoken : r.capabilities.get tokenId = some token)
      (hdid : r.dids.get token.subjectDid = some did) (hactor : did.controller = actor)
      (hchange : token.expiresAt ≠ expiresAt)
      (hevent : Recorded r.auditTrail.length [.token token.subjectDid] [event]) :
      Step r (.renewCapability actor tokenId atHeight expiresAt) none
        (addEvent event (setToken tokenId { token with expiresAt := expiresAt } r))
  | revokeDidAgain {actor did : String} {atHeight anchor : U64} {record : DidRecord}
      {r' : IdentityRegistry} (hdid : r.dids.get did = some record)
      (hactor : record.controller = actor) (hrevoked : record.revokedAt = some anchor)
      (hcascade : Cascaded did anchor (toRevoke r did) r r') :
      Step r (.revokeDid actor did atHeight) none r'
  | revokeDid {actor did : String} {atHeight : U64} {record : DidRecord} {event : AuditEvent}
      {r' : IdentityRegistry} (hdid : r.dids.get did = some record)
      (hactor : record.controller = actor) (hfirst : record.revokedAt = none)
      (hevent : Recorded r.auditTrail.length [.did did] [event])
      (hcascade : Cascaded did atHeight (toRevoke r did)
        (addEvent event (setDid did { record with revokedAt := some atHeight } r)) r') :
      Step r (.revokeDid actor did atHeight) none r'

section
variable {r r' : IdentityRegistry} {α : Type} {actor did subject : String}
  {tokenId atHeight anchor : U64} {action : AuditAction} {note : Option String}

/-! ## Checks and events -/

section
variable {Q : α → IdentityRegistry → Prop}

theorem findDid_bind
    (h : ∀ record, r.dids.get did = some record → SafeUnless Crash (f record) r Q) :
    SafeUnless Crash (findDid did >>= f) r Q := by
  unfold findDid
  rw [bind_assoc]
  exact .get_bind (.lift_bind fun record hrecord => h record (getOr_eq_ok.mp hrecord))

theorem findToken_bind
    (h : ∀ token, r.capabilities.get tokenId = some token → SafeUnless Crash (f token) r Q) :
    SafeUnless Crash (findToken tokenId >>= f) r Q := by
  unfold findToken
  rw [bind_assoc]
  exact .get_bind (.lift_bind fun token htoken => h token (getOr_eq_ok.mp htoken))

theorem validateExpiry_bind
    (h : (∀ exp, expiresAt = some exp → atHeight ≤ exp) → SafeUnless Crash (f ()) r Q) :
    SafeUnless Crash (validateExpiry atHeight expiresAt >>= f) r Q := by
  cases expiresAt with
  | none => exact h nofun
  | some exp => exact .ensure_bind fun hexp => h fun _ heq => Option.some.inj heq ▸ hexp

theorem validateRenewal_bind
    (h : (∀ exp, current = some exp → ∃ exp', requested = some exp' ∧ exp ≤ exp') →
      SafeUnless Crash (f ()) r Q) :
    SafeUnless Crash (validateRenewal current requested >>= f) r Q := by
  cases current with
  | none => exact h nofun
  | some current =>
    cases requested with
    | none => exact .inr rfl
    | some requested =>
      exact .ensure_bind fun hle => h fun _ heq => ⟨requested, rfl, Option.some.inj heq ▸ hle⟩

end

/-! ## Events -/

namespace Recorded
variable {n : Nat} {target : Target} {event : AuditEvent} {events : List AuditEvent}
  {targets : List Target}

theorem cons (hevent : Recorded n [target] [event]) (hrest : Recorded (n + 1) targets events) :
    Recorded n (target :: targets) (event :: events) := by
  refine ⟨?_, ?_⟩
  · rw [List.map_cons, hrest.targets, List.singleton_inj.mp hevent.targets]
  · have hseq := hevent.seqs
    simp only [List.map_cons, List.map_nil, List.length_cons, List.length_nil, List.range'_succ,
      List.range'_zero, List.cons.injEq, and_true] at hseq
    rw [List.map_cons, hseq, hrest.seqs, List.length_cons, List.range'_succ, List.map_cons]

end Recorded

/-- An event is written with the next number, or the counter overflows. -/
theorem pushAudit_returns (action : AuditAction) (actor subject : String) (atHeight : U64)
    (note : Option String) : ReturnsUnless Crash (pushAudit action actor subject atHeight note) r
      fun _ r' => ∃ event, r' = addEvent event r ∧
        Recorded r.auditTrail.length [if action = .didRegistered ∨ action = .didRevoked
          then .did subject else .token subject] [event] := by
  unfold pushAudit
  refine .get_bind (.lift_bind (fun e he => ?_) fun seq hseq => .of_modify ⟨_, rfl, ?_, ?_⟩)
  · unfold checkedAdd at he
    split at he
    · cases he
    · exact ⟨_, (Except.error.inj he).symm⟩
  · cases action <;> rfl
  · simpa using checkedAdd_eq_ok.mp hseq

/-! ## The cascade -/

/-- One round of the loop, before the rest of it. -/
theorem Cascaded.cons {token : CapabilityToken} {event : AuditEvent} {ids : List U64}
    (htoken : r.capabilities.get tokenId = some token) (hnew : tokenId ∉ ids)
    (hevent : Recorded r.auditTrail.length [.token did] [event])
    (hrest : Cascaded did anchor ids (addEvent event (setToken tokenId (token.cascade anchor) r))
      r') : Cascaded did anchor (tokenId :: ids) r r' := by
  obtain ⟨events, htrail, hevents⟩ := hrest.trail
  rw [addEvent, List.length_append] at hevents
  refine ⟨hrest.dids, hrest.next, fun id => ?_, event :: events, ?_, hevent.cons hevents⟩
  · rw [hrest.tokens]
    by_cases hid : id = tokenId
    · subst hid
      simp [addEvent, setToken, hnew, htoken]
    · simp [addEvent, setToken, hid, get_insert_ne (Ne.symm hid)]
  · simpa [addEvent, setToken] using htrail

theorem forM_cascadeRevoke_returns (hnodup : ids.Nodup)
    (hids : ∀ id ∈ ids, ∃ token, r.capabilities.get id = some token ∧ token.subjectDid = did) :
    ReturnsUnless Crash (forM ids (cascadeRevoke anchor)) r fun _ r' =>
      Cascaded did anchor ids r r' := by
  induction ids generalizing r with
  | nil => exact .of_pure ⟨rfl, rfl, fun _ => by simp, [], by simp, rfl, rfl⟩
  | cons tokenId ids ih =>
    obtain ⟨⟨token, htoken, hsubject⟩, hids⟩ := List.forall_mem_cons.mp hids
    obtain ⟨hnew, hnodup⟩ := List.nodup_cons.mp hnodup
    rw [List.forM_cons, cascadeRevoke, bind_assoc]
    refine .get_bind ?_
    rw [htoken, bind_assoc]
    refine .modify_bind (.bind (pushAudit_returns ..) ?_)
    rintro _ _ ⟨event, rfl, hevent⟩
    rw [hsubject] at hevent
    refine (ih hnodup fun id hid => ?_).mono fun _ _ hrest => .cons htoken hnew hevent hrest
    rw [addEvent, setToken, get_insert_ne (ne_of_mem_of_not_mem hid hnew).symm]
    exact hids id hid

theorem mem_toRevoke : tokenId ∈ toRevoke r did ↔ ∃ token,
    r.capabilities.get tokenId = some token ∧ token.subjectDid = did ∧ token.revokedAt = none := by
  rw [toRevoke, mem_keys, get_filter]
  cases r.capabilities.get tokenId with
  | none => simp
  | some token => simp [Option.filter]

theorem cascade_returns : ReturnsUnless Crash (forM (toRevoke r did) (cascadeRevoke anchor)) r
    fun _ r' => Cascaded did anchor (toRevoke r did) r r' := by
  refine forM_cascadeRevoke_returns nodup_keys fun id hid => ?_
  obtain ⟨token, htoken, hsubject, -⟩ := mem_toRevoke.mp hid
  exact ⟨token, htoken, hsubject⟩

/-! ## Calls -/

theorem registerDid_safe :
    SafeUnless Crash (registerDid did controller atHeight) r fun _ r' =>
      Step r (.registerDid did controller atHeight) none r' := by
  refine .lift_bind fun _ _ => .lift_bind fun _ _ => .ensure_bind fun hnew => ?_
  refine .modify_bind ((pushAudit_returns ..).mono ?_)
  rintro _ _ ⟨event, rfl, hevent⟩
  exact .registerDid hnew hevent

theorem issueCapability_safe :
    SafeUnless Crash (issueCapability actor subjectDid scope atHeight expiresAt) r fun tokenId r' =>
      Step r (.issueCapability actor subjectDid scope atHeight expiresAt) (some tokenId) r' := by
  refine .lift_bind fun _ _ => .lift_bind fun _ _ => validateExpiry_bind fun _ => ?_
  refine findDid_bind fun did hdid => .ensure_bind fun hactive => .ensure_bind fun hactor => ?_
  refine .ensure_bind fun hcreated => .get_bind (.lift_bind fun tokenId hid => ?_)
  refine .modify_bind (.modify_bind (.bind (pushAudit_returns ..) ?_))
  rintro _ _ ⟨event, rfl, hevent⟩
  exact .of_pure (.issueCapability hdid (by simpa [DidRecord.isActive] using hactive) hactor
    hcreated (checkedAdd_eq_ok.mp hid) hevent)

theorem revokeCapability_safe : SafeUnless Crash (revokeCapability actor tokenId atHeight note) r
    fun _ r' => Step r (.revokeCapability actor tokenId atHeight note) none r' := by
  refine .lift_bind fun _ _ => findToken_bind fun token htoken => findDid_bind fun did hdid => ?_
  refine .ensure_bind fun hactor => findToken_bind fun token' htoken' => ?_
  obtain rfl := Option.some.inj (htoken.symm.trans htoken')
  split
  · exact .of_ensure fun _ => .revokeAgain htoken hdid hactor
  · next hfirst =>
    refine .ensure_bind fun hissued => .modify_bind ((pushAudit_returns ..).mono ?_)
    rintro _ _ ⟨event, rfl, hevent⟩
    exact .revokeCapability htoken hdid hactor hfirst hissued hevent

theorem renewCapability_safe :
    SafeUnless Crash (renewCapability actor tokenId atHeight expiresAt) r fun _ r' =>
      Step r (.renewCapability actor tokenId atHeight expiresAt) none r' := by
  refine .lift_bind fun _ _ => validateExpiry_bind fun _ => findToken_bind fun token htoken => ?_
  refine findDid_bind fun did hdid => .ensure_bind fun _ => .ensure_bind fun hactor => ?_
  refine findToken_bind fun token' htoken' => .ensure_bind fun _ => validateRenewal_bind fun _ => ?_
  obtain rfl := Option.some.inj (htoken.symm.trans htoken')
  split
  · exact .of_run rfl (.renewAgain htoken hdid hactor)
  · next hchange =>
    refine .modify_bind ((pushAudit_returns ..).mono ?_)
    rintro _ _ ⟨event, rfl, hevent⟩
    exact .renewCapability htoken hdid hactor hchange hevent

theorem revokeDid_safe : SafeUnless Crash (revokeDid actor did atHeight) r fun _ r' =>
    Step r (.revokeDid actor did atHeight) none r' := by
  refine .lift_bind fun _ _ => .lift_bind fun _ _ => findDid_bind fun record hdid => ?_
  refine .ensure_bind fun hactor => ?_
  unfold revokeRecord
  split
  · next hrevoked =>
    rw [bind_assoc]
    refine .ensure_bind fun _ => .get_bind (cascade_returns.mono fun _ _ hcascade => ?_).safe
    exact .revokeDidAgain hdid hactor hrevoked hcascade
  · next hfirst =>
    simp only [bind_assoc]
    refine .ensure_bind fun _ => .modify_bind (.bind (pushAudit_returns ..) ?_)
    rintro _ _ ⟨event, rfl, hevent⟩
    refine .get_bind (cascade_returns.mono fun _ _ hcascade => ?_)
    exact .revokeDid hdid hactor hfirst hevent hcascade

theorem perform_safe : SafeUnless Crash call.perform r (Step r call) := by
  cases call with
  | registerDid => exact registerDid_safe.bind fun _ _ h => .of_pure h
  | issueCapability => exact issueCapability_safe.bind fun _ _ h => .of_pure h
  | renewCapability => exact renewCapability_safe.bind fun _ _ h => .of_pure h
  | revokeCapability => exact revokeCapability_safe.bind fun _ _ h => .of_pure h
  | revokeDid => exact revokeDid_safe.bind fun _ _ h => .of_pure h

end

end Trillionnium.Identity
