import Mathlib.Data.String.Basic
import Trillionnium.Lib.Checked
import Trillionnium.Lib.Mutable
import Trillionnium.Lib.OrdMap
import Trillionnium.Lib.Text

/-!
# The identity registry

The methods of `IdentityRegistry`: decentralized identifiers, the capability tokens that their
controllers issue, and the audit trail. Heights are given by the caller and need not increase. Each
method takes the registry by mutable reference, so it is an `EStateM` computation that keeps what
was written before a failure.
-/

namespace Trillionnium.Identity

open Lib Lib.Text

inductive CapabilityScope
  | bridgeSettle | bridgeRevert | auditRead | marketPublish | marketExecute
  deriving DecidableEq

structure DidRecord where
  did : String
  controller : String
  createdAt : U64
  revokedAt : Option U64
  deriving DecidableEq

namespace DidRecord

def isActive (d : DidRecord) : Bool := d.revokedAt.isNone

def isActiveAt (d : DidRecord) (atHeight : U64) : Bool :=
  if atHeight < d.createdAt then false
  else
    match d.revokedAt with
    | some revokedAt => atHeight < revokedAt
    | none => true

end DidRecord

structure CapabilityToken where
  tokenId : U64
  subjectDid : String
  scope : CapabilityScope
  issuedAt : U64
  expiresAt : Option U64
  revokedAt : Option U64
  deriving DecidableEq

def CapabilityToken.isActiveAt (token : CapabilityToken) (atHeight : U64) : Bool :=
  if atHeight < token.issuedAt then false
  else if token.revokedAt.any (· ≤ atHeight) then false
  else
    match token.expiresAt with
    | some exp => atHeight ≤ exp
    | none => true

/-- The token once its identifier is revoked at `anchor`. -/
def CapabilityToken.cascade (anchor : U64) (token : CapabilityToken) : CapabilityToken :=
  { token with revokedAt := some (max anchor token.issuedAt) }

inductive AuditAction
  | didRegistered | didRevoked | capabilityIssued | capabilityRenewed | capabilityRevoked
  deriving DecidableEq

structure AuditEvent where
  seq : U64
  action : AuditAction
  actor : String
  subject : String
  atHeight : U64
  note : Option String
  deriving DecidableEq

structure IdentityRegistry where
  dids : OrdMap String DidRecord
  capabilities : OrdMap U64 CapabilityToken
  auditTrail : List AuditEvent
  nextCapabilityId : U64
  deriving DecidableEq

/-- `InteropIdentityError`, as far as the registry uses it. -/
inductive InteropIdentityError
  | didAlreadyExists (did : String)
  | invalidIdentityValue (field value : String)
  | didNotFound (did : String)
  | didRevoked (did : String)
  | unauthorizedActor (actor did controller : String)
  | capabilityNotFound (tokenId : U64)
  | capabilityScopeMismatch (tokenId : U64) (expected actual : CapabilityScope)
  | capabilityInactive (tokenId atHeight issuedAt : U64) (expiresAt revokedAt : Option U64)
  | invalidCapabilityExpiry (issuedAt expiresAt : U64)
  | capabilityRenewalRegression (currentExpiresAt requestedExpiresAt : U64)
  | capabilityRenewalCannotClearExpiry (currentExpiresAt : U64)
  | invalidCapabilityRevocationHeight (issuedAt revokedAt : U64)
  | invalidCapabilityIssueHeight (did : String) (createdAt issuedAt : U64)
  | invalidDidRevocationHeight (createdAt revokedAt : U64)
  deriving DecidableEq

/-- What ends a call without a value: an error of the source, or a panic. -/
inductive Failure
  | coded (e : InteropIdentityError)
  | panicked (message : String)
  deriving DecidableEq

abbrev Operation := EStateM Failure IdentityRegistry

/-! ## Texts -/

def isDisallowedInvisibleChar (c : Char) : Bool :=
  let n := c.toNat
  n = 0x061C || (0x200B ≤ n ∧ n ≤ 0x200F) || (0x202A ≤ n ∧ n ≤ 0x202E) || n = 0x2060 ||
    (0x2066 ≤ n ∧ n ≤ 0x2069) || n = 0xFEFF

namespace IdentityRegistry

def didMinLen : Nat := 7
def didMaxLen : Nat := 128

def isLowerOrDigit (c : Char) : Bool := c.isLower || c.isDigit

/-- `did:`, a method and what the method says, parted by the second colon. -/
def isCanonicalDid (value : String) : Bool :=
  let rest := value.toList.drop 4
  let method := rest.takeWhile (· ≠ ':')
  let methodSpecific := (rest.dropWhile (· ≠ ':')).drop 1
  didMinLen ≤ value.utf8ByteSize && value.utf8ByteSize ≤ didMaxLen &&
    value.toList.take 4 = "did:".toList && method ≠ [] && methodSpecific ≠ [] &&
    method.all isLowerOrDigit &&
    methodSpecific.all fun c => isLowerOrDigit c || c ∈ [':', '.', '_', '-']

def validateIdentityField (field value : String) : Except Failure Unit :=
  require (¬ (trim value = "" ∨ trim value ≠ value ∨ value.toList.any isControl ∨
      value.toList.any isDisallowedInvisibleChar ∨
      ((field = "did" ∨ field = "subject_did") ∧ ¬ isCanonicalDid value)))
    (.coded (.invalidIdentityValue field value))

/-- One line of visible text, or nothing. -/
def normalizeNote (note : Option String) : Option String :=
  note.bind fun v =>
    let sanitized := String.ofList ((trim v).toList.map fun c =>
      if isControl c || isDisallowedInvisibleChar c then ' ' else c)
    let collapsed := " ".intercalate (splitWhitespace sanitized)
    if collapsed = "" then none else some collapsed

/-- `format!("{:?}", height)` of an optional height. -/
def debugHeight : Option U64 → String
  | none => "None"
  | some height => "Some(" ++ toString height.toNat ++ ")"

/-! ## Writes -/

def setDid (did : String) (record : DidRecord) (r : IdentityRegistry) : IdentityRegistry :=
  { r with dids := r.dids.insert did record }

def setToken (tokenId : U64) (token : CapabilityToken) (r : IdentityRegistry) : IdentityRegistry :=
  { r with capabilities := r.capabilities.insert tokenId token }

def addEvent (event : AuditEvent) (r : IdentityRegistry) : IdentityRegistry :=
  { r with auditTrail := r.auditTrail ++ [event] }

def pushAudit (action : AuditAction) (actor subject : String) (atHeight : U64)
    (note : Option String) : Operation Unit := do
  let seq ← lift (checkedAdd (.ofNat 64 (← get).auditTrail.length) 1
    (.panicked "attempt to add with overflow"))
  modify (addEvent ⟨seq, action, actor, subject, atHeight, normalizeNote note⟩)

/-! ## Checks -/

def ensureActorControlsDid (actor : String) (did : DidRecord) : Operation Unit :=
  ensure (fun _ => did.controller = actor)
    (.coded (.unauthorizedActor actor did.did did.controller))

def findDid (did : String) : Operation DidRecord := do
  lift (getOr ((← get).dids.get did) (.coded (.didNotFound did)))

def findToken (tokenId : U64) : Operation CapabilityToken := do
  lift (getOr ((← get).capabilities.get tokenId) (.coded (.capabilityNotFound tokenId)))

def validateExpiry (atHeight : U64) (expiresAt : Option U64) : Operation Unit :=
  match expiresAt with
  | some exp => ensure (fun _ => atHeight ≤ exp) (.coded (.invalidCapabilityExpiry atHeight exp))
  | none => pure ()

/-! ## Methods -/

def registerDid (did controller : String) (atHeight : U64) : Operation Unit := do
  lift (validateIdentityField "did" did)
  lift (validateIdentityField "controller" controller)
  ensure (fun r => r.dids.get did = none) (.coded (.didAlreadyExists did))
  modify (setDid did ⟨did, controller, atHeight, none⟩)
  pushAudit .didRegistered controller did atHeight none

def issueCapability (actor subjectDid : String) (scope : CapabilityScope) (atHeight : U64)
    (expiresAt : Option U64) : Operation U64 := do
  lift (validateIdentityField "actor" actor)
  lift (validateIdentityField "subject_did" subjectDid)
  validateExpiry atHeight expiresAt
  let did ← findDid subjectDid
  ensure (fun _ => did.isActive = true) (.coded (.didRevoked subjectDid))
  ensureActorControlsDid actor did
  ensure (fun _ => did.createdAt ≤ atHeight)
    (.coded (.invalidCapabilityIssueHeight subjectDid did.createdAt atHeight))
  let tokenId ← lift (checkedAdd (← get).nextCapabilityId 1
    (.panicked "attempt to add with overflow"))
  modify fun r => { r with nextCapabilityId := tokenId }
  modify (setToken tokenId ⟨tokenId, subjectDid, scope, atHeight, expiresAt, none⟩)
  pushAudit .capabilityIssued actor subjectDid atHeight
    (some ("token_id=" ++ toString tokenId.toNat))
  pure tokenId

def revokeCapability (actor : String) (tokenId atHeight : U64) (note : Option String) :
    Operation Unit := do
  lift (validateIdentityField "actor" actor)
  let subjectDid := (← findToken tokenId).subjectDid
  let did ← findDid subjectDid
  ensureActorControlsDid actor did
  let token ← findToken tokenId
  match token.revokedAt with
  | some firstRevokedAt =>
    ensure (fun _ => firstRevokedAt ≤ atHeight)
      (.coded (.invalidCapabilityRevocationHeight firstRevokedAt atHeight))
  | none => do
    ensure (fun _ => token.issuedAt ≤ atHeight)
      (.coded (.invalidCapabilityRevocationHeight token.issuedAt atHeight))
    modify (setToken tokenId { token with revokedAt := some atHeight })
    pushAudit .capabilityRevoked actor token.subjectDid atHeight note

/-- A renewal keeps or extends an expiry, and never clears it. -/
def validateRenewal (current requested : Option U64) : Operation Unit :=
  match current, requested with
  | some current, some requested => ensure (fun _ => current ≤ requested)
      (.coded (.capabilityRenewalRegression current requested))
  | some current, none => throw (.coded (.capabilityRenewalCannotClearExpiry current))
  | none, _ => pure ()

def renewCapability (actor : String) (tokenId atHeight : U64) (expiresAt : Option U64) :
    Operation Unit := do
  lift (validateIdentityField "actor" actor)
  validateExpiry atHeight expiresAt
  let subjectDid := (← findToken tokenId).subjectDid
  let did ← findDid subjectDid
  ensure (fun _ => did.isActive = true) (.coded (.didRevoked did.did))
  ensureActorControlsDid actor did
  let token ← findToken tokenId
  ensure (fun _ => token.isActiveAt atHeight = true)
    (.coded (.capabilityInactive tokenId atHeight token.issuedAt token.expiresAt token.revokedAt))
  validateRenewal token.expiresAt expiresAt
  if token.expiresAt = expiresAt then pure ()
  else do
    modify (setToken tokenId { token with expiresAt := expiresAt })
    pushAudit .capabilityRenewed actor subjectDid atHeight
      (some ("token_id=" ++ toString tokenId.toNat ++ " expires_at=" ++ debugHeight expiresAt))

/-- One round of the loop of `revoke_did`. -/
def cascadeRevoke (anchor tokenId : U64) : Operation Unit := do
  match (← get).capabilities.get tokenId with
  | none => pure ()
  | some token => do
    modify (setToken tokenId (token.cascade anchor))
    pushAudit .capabilityRevoked "system:cascade" token.subjectDid (max anchor token.issuedAt)
      (some ("cascade_on_did_revoke token_id=" ++ toString tokenId.toNat))

/-- The tokens of an identifier that are not revoked. -/
def toRevoke (r : IdentityRegistry) (did : String) : List U64 :=
  (r.capabilities.filter fun _ token => token.subjectDid = did ∧ token.revokedAt = none).keys

/-- The height at which the identifier is revoked, now or by an earlier call. -/
def revokeRecord (actor did : String) (record : DidRecord) (atHeight : U64) : Operation U64 :=
  match record.revokedAt with
  | some firstRevokedAt => do
    ensure (fun _ => firstRevokedAt ≤ atHeight)
      (.coded (.invalidDidRevocationHeight firstRevokedAt atHeight))
    pure firstRevokedAt
  | none => do
    ensure (fun _ => record.createdAt ≤ atHeight)
      (.coded (.invalidDidRevocationHeight record.createdAt atHeight))
    modify (setDid did { record with revokedAt := some atHeight })
    pushAudit .didRevoked actor did atHeight none
    pure atHeight

def revokeDid (actor did : String) (atHeight : U64) : Operation Unit := do
  lift (validateIdentityField "actor" actor)
  lift (validateIdentityField "did" did)
  let record ← findDid did
  ensureActorControlsDid actor record
  let anchor ← revokeRecord actor did record atHeight
  forM (toRevoke (← get) did) (cascadeRevoke anchor)

def verifyCapability (r : IdentityRegistry) (actor : String) (tokenId : U64)
    (requiredScope : CapabilityScope) (atHeight : U64) : Except Failure Unit := do
  validateIdentityField "actor" actor
  let token ← getOr (r.capabilities.get tokenId) (.coded (.capabilityNotFound tokenId))
  let did ← getOr (r.dids.get token.subjectDid) (.coded (.didNotFound token.subjectDid))
  require (did.isActiveAt atHeight = true) (.coded (.didRevoked did.did))
  require (token.isActiveAt atHeight = true)
    (.coded (.capabilityInactive tokenId atHeight token.issuedAt token.expiresAt token.revokedAt))
  require (token.scope = requiredScope)
    (.coded (.capabilityScopeMismatch tokenId requiredScope token.scope))
  require (did.controller = actor) (.coded (.unauthorizedActor actor did.did did.controller))

end IdentityRegistry

/-- `IdentityRegistry::default()` -/
instance : EmptyCollection IdentityRegistry := ⟨⟨∅, ∅, [], 0⟩⟩

inductive Call
  | registerDid (did controller : String) (atHeight : U64)
  | issueCapability (actor subjectDid : String) (scope : CapabilityScope) (atHeight : U64)
      (expiresAt : Option U64)
  | renewCapability (actor : String) (tokenId atHeight : U64) (expiresAt : Option U64)
  | revokeCapability (actor : String) (tokenId atHeight : U64) (note : Option String)
  | revokeDid (actor did : String) (atHeight : U64)

/-- A call, with the identifier of the token that it issues. -/
def Call.perform : Call → Operation (Option U64)
  | .registerDid did controller atHeight => do
    IdentityRegistry.registerDid did controller atHeight
    pure none
  | .issueCapability actor subjectDid scope atHeight expiresAt => do
    let tokenId ← IdentityRegistry.issueCapability actor subjectDid scope atHeight expiresAt
    pure (some tokenId)
  | .renewCapability actor tokenId atHeight expiresAt => do
    IdentityRegistry.renewCapability actor tokenId atHeight expiresAt
    pure none
  | .revokeCapability actor tokenId atHeight note => do
    IdentityRegistry.revokeCapability actor tokenId atHeight note
    pure none
  | .revokeDid actor did atHeight => do
    IdentityRegistry.revokeDid actor did atHeight
    pure none

end Trillionnium.Identity
