import Trillionnium.Lib.Reader
import Trillionnium.TaskKernel.Codec

/-!
# Agent transactions

The outer wire of `agent_transaction_wire_v1.rs`: a header of fixed width that repeats fields of the
authorization, the Borsh bytes of the command and two digests. The bodies of the operations are
arbitrary types with codes that give back what was written; the command and its authorization are
built from them.
-/

namespace Trillionnium.TaskKernel

open Lib Pon
open Mvcc (Borsh u16 u32 u64 hash32 bytes)

/-! ## Commands -/

structure KernelAuthorizationStatement where
  schemaVersion : U16
  context : ProtocolContext
  operationKind : U16
  operationDigest : Hash
  senderAgentId : Hash
  authorizingKeyId : Hash
  capabilityId : Option Hash
  liveCapabilityGeneration : U64
  sessionKeyGrantId : Option Hash
  sessionGeneration : U64
  nonceLane : U16
  nonce : U64
  expectedLaneVersion : U64
  validAfterHeight : U64
  expiresAfterHeight : U64

structure KernelAuthorization where
  statement : KernelAuthorizationStatement
  signerKeyId : Hash
  signature : Bytes

def KernelAuthorizationStatement.code : Borsh KernelAuthorizationStatement :=
  (u16.pair <| ProtocolContext.code.pair <| u16.pair <| hash32.pair <| hash32.pair <| hash32.pair <|
    hash32.option.pair <| u64.pair <| hash32.option.pair <| u64.pair <| u16.pair <| u64.pair <|
    u64.pair <| u64.pair u64).record
    (fun ⟨a, b, c, d, e, f, g, h, i, j, k, l, m, n, o⟩ =>
      (a, b, c, d, e, f, g, h, i, j, k, l, m, n, o))
    ↿KernelAuthorizationStatement.mk fun _ => rfl

def KernelAuthorization.code : Borsh KernelAuthorization :=
  (KernelAuthorizationStatement.code.pair <| hash32.pair bytes).record
    (fun ⟨a, b, c⟩ => (a, b, c)) ↿KernelAuthorization.mk fun _ => rfl

/-- The bodies of the operations with their codes. -/
structure Bodies where
  CapabilityGrant : Type
  SessionKeyGrant : Type
  TaskCreation : Type
  Bid : Type
  TaskLease : Type
  ProviderAcceptance : Type
  ResourceCharge : Type
  capabilityGrant : Borsh CapabilityGrant
  sessionKeyGrant : Borsh SessionKeyGrant
  taskCreation : Borsh TaskCreation
  bid : Borsh Bid
  taskLease : Borsh TaskLease
  providerAcceptance : Borsh ProviderAcceptance
  resourceCharge : Borsh ResourceCharge

inductive KernelCommand (B : Bodies) where
  | capabilityGrant (body : B.CapabilityGrant) (authorization : KernelAuthorization)
  | sessionGrant (body : B.SessionKeyGrant) (authorization : KernelAuthorization)
  | taskCreate (body : B.TaskCreation) (charge : B.ResourceCharge)
    (authorization : KernelAuthorization)
  | bid (body : B.Bid) (charge : B.ResourceCharge) (authorization : KernelAuthorization)
  | leaseAccept (body : B.TaskLease)
    (expectedBidVersion expectedEscrowVersion expectedBondVersion : U64) (charge : B.ResourceCharge)
      (authorization : KernelAuthorization)
  | providerAccept (body : B.ProviderAcceptance) (expectedLeaseRevision : U64)
    (charge : B.ResourceCharge) (authorization : KernelAuthorization)

namespace KernelCommand

variable {B : Bodies}

def operationKind : KernelCommand B → U16
  | capabilityGrant .. => 2
  | sessionGrant .. => 3
  | taskCreate .. => 4
  | bid .. => 5
  | leaseAccept .. => 6
  | providerAccept .. => 7

def authorization : KernelCommand B → KernelAuthorization
  | capabilityGrant _ authorization | sessionGrant _ authorization | taskCreate _ _ authorization
  | bid _ _ authorization | leaseAccept _ _ _ _ _ authorization | providerAccept _ _ _
      authorization =>
    authorization

def operationDigest (sha256 : Bytes → Hash) : KernelCommand B → Outcome Hash
  | capabilityGrant body _ =>
    digestValue sha256 "trnm.portable.v2.capability-grant-operation.candidate.v1"
      (B.capabilityGrant.encode body)
  | sessionGrant body _ =>
    digestValue sha256 "trnm.portable.v2.session-grant-operation.candidate.v1"
      (B.sessionKeyGrant.encode body)
  | taskCreate body charge _ =>
    digestValue sha256 "trnm.portable.v2.task-create-operation.candidate.v1"
      ((B.taskCreation.pair B.resourceCharge).encode (body, charge))
  | bid body charge _ =>
    digestValue sha256 "trnm.portable.v2.bid-operation.candidate.v1"
      ((B.bid.pair B.resourceCharge).encode (body, charge))
  | leaseAccept body bidVersion escrowVersion bondVersion charge _ =>
    digestValue sha256 "trnm.portable.v2.lease-accept-operation.candidate.v1"
      ((B.taskLease.pair <| u64.pair <| u64.pair <| u64.pair B.resourceCharge).encode
        (body, bidVersion, escrowVersion, bondVersion, charge))
  | providerAccept body leaseRevision charge _ =>
    digestValue sha256 "trnm.portable.v2.provider-accept-operation.candidate.v1"
      ((B.providerAcceptance.pair <| u64.pair B.resourceCharge).encode
        (body, leaseRevision, charge))

/-- The fields of each command, in the order of their tags. -/
abbrev Fields (B : Bodies) : Fin 6 → Type
  | 0 => B.CapabilityGrant × KernelAuthorization
  | 1 => B.SessionKeyGrant × KernelAuthorization
  | 2 => B.TaskCreation × B.ResourceCharge × KernelAuthorization
  | 3 => B.Bid × B.ResourceCharge × KernelAuthorization
  | 4 => B.TaskLease × U64 × U64 × U64 × B.ResourceCharge × KernelAuthorization
  | 5 => B.ProviderAcceptance × U64 × B.ResourceCharge × KernelAuthorization

def fields : KernelCommand B → (i : Fin 6) × Fields B i
  | capabilityGrant body authorization => ⟨0, body, authorization⟩
  | sessionGrant body authorization => ⟨1, body, authorization⟩
  | taskCreate body charge authorization => ⟨2, body, charge, authorization⟩
  | bid body charge authorization => ⟨3, body, charge, authorization⟩
  | leaseAccept body bidVersion escrowVersion bondVersion charge authorization =>
    ⟨4, body, bidVersion, escrowVersion, bondVersion, charge, authorization⟩
  | providerAccept body leaseRevision charge authorization => ⟨5, body, leaseRevision, charge,
    authorization⟩

def fieldCode (B : Bodies) : (i : Fin 6) → Borsh (Fields B i)
  | 0 => B.capabilityGrant.pair KernelAuthorization.code
  | 1 => B.sessionKeyGrant.pair KernelAuthorization.code
  | 2 => B.taskCreation.pair <| B.resourceCharge.pair KernelAuthorization.code
  | 3 => B.bid.pair <| B.resourceCharge.pair KernelAuthorization.code
  | 4 => B.taskLease.pair <| u64.pair <| u64.pair <| u64.pair <|
    B.resourceCharge.pair KernelAuthorization.code
  | 5 => B.providerAcceptance.pair <| u64.pair <| B.resourceCharge.pair KernelAuthorization.code

def code : Borsh (KernelCommand B) :=
  (Code.tagged (by norm_num) (fieldCode B)).through fields
    (fun
      | ⟨0, body, authorization⟩ => some (capabilityGrant body authorization)
      | ⟨1, body, authorization⟩ => some (sessionGrant body authorization)
      | ⟨2, body, charge, authorization⟩ => some (taskCreate body charge authorization)
      | ⟨3, body, charge, authorization⟩ => some (bid body charge authorization)
      | ⟨4, body, bidVersion, escrowVersion, bondVersion, charge, authorization⟩ =>
        some (leaseAccept body bidVersion escrowVersion bondVersion charge authorization)
      | ⟨5, body, leaseRevision, charge, authorization⟩ =>
        some (providerAccept body leaseRevision charge authorization))
    fun command => by cases command <;> rfl

end KernelCommand

/-! ## Encoding -/

def agentTransactionMagic : Bytes := Bytes.ofString "TRNMATX1"
def maxAgentTransactionCommandBytes : Nat := 1048576
def headerBytes : Nat := 294
def trailerBytes : Nat := 32
def contextDomain : String := "trnm.portable.v2.agent-transaction-context.v1"
def payloadDomain : String := "trnm.portable.v2.agent-transaction-payload.v1"
def wireDomain : String := "trnm.portable.v2.agent-transaction-wire.v1"

structure AgentTransaction (B : Bodies) where
  command : KernelCommand B
  encoded : Bytes
  transactionId : Hash

def encodeOptionalId : Option Hash → Bytes
  | some value => 1 :: value.bytes
  | none => 0 :: List.replicate 32 0

/-- The header up to the identifiers that may be absent. -/
def headerStart (authorization : KernelAuthorization) (contextDigest : Hash) : List Bytes :=
  [agentTransactionMagic, Bytes.ofNat 2 1, Bytes.ofNat 2 0, contextDigest.bytes,
    authorization.statement.senderAgentId.bytes, authorization.statement.authorizingKeyId.bytes,
    authorization.signerKeyId.bytes]

/-- The header behind those identifiers. -/
def headerEnd (statement : KernelAuthorizationStatement) (commandLen : Nat) (payloadDigest : Hash) :
    List Bytes :=
  [Bytes.ofNat 8 statement.liveCapabilityGeneration.toNat,
    Bytes.ofNat 8 statement.sessionGeneration.toNat, Bytes.ofNat 2 statement.nonceLane.toNat,
    Bytes.ofNat 2 statement.operationKind.toNat, Bytes.ofNat 8 statement.nonce.toNat,
    Bytes.ofNat 8 statement.expectedLaneVersion.toNat,
    Bytes.ofNat 8 statement.validAfterHeight.toNat,
    Bytes.ofNat 8 statement.expiresAfterHeight.toNat, Bytes.ofNat 4 commandLen, payloadDigest.bytes]

def header (authorization : KernelAuthorization) (contextDigest : Hash) (commandLen : Nat)
    (payloadDigest : Hash) : Bytes :=
  (headerStart authorization contextDigest).flatten ++
    (encodeOptionalId authorization.statement.capabilityId ++
    (encodeOptionalId authorization.statement.sessionKeyGrantId ++
      (headerEnd authorization.statement commandLen payloadDigest).flatten))

section
variable {B : Bodies} (sha256 : Bytes → Hash)

def validateCommandShape (command : KernelCommand B) : Outcome Unit := do
  let statement := command.authorization.statement
  require (statement.schemaVersion = 1 ∧ statement.context.protocolVersion = 1 ∧
      statement.context.chainId ≠ [] ∧
      statement.context.chainId.length ≤ 128 ∧ statement.operationKind = command.operationKind)
    (.coded .invalidContext "agent transaction command or authorization envelope is malformed")
  let operationDigest ← command.operationDigest sha256
  require (statement.operationDigest = operationDigest ∧
      statement.validAfterHeight ≤ statement.expiresAfterHeight ∧
      command.authorization.signature.length = 64)
    (.coded .invalidContext "agent transaction command or authorization envelope is malformed")

def encodeCommand (command : KernelCommand B) : Outcome Bytes := do
  let commandBytes ← canonicalBytes (KernelCommand.code.encode command)
  require (commandBytes.length ≤ maxAgentTransactionCommandBytes)
    (.coded .invalidBounds "agent transaction command exceeds the wire bound")
  require (commandBytes.length < 2 ^ 32) (overflow "agent transaction command length exceeds u32")
  let authorization := command.authorization
  let contextDigest ← digestValue sha256 contextDomain
    (ProtocolContext.code.encode authorization.statement.context)
  let payloadDigest ← digestEncoded sha256 payloadDomain commandBytes
  let encoded := header authorization contextDigest commandBytes.length payloadDigest ++
    commandBytes
  require (encoded.length = headerBytes + commandBytes.length)
    (.coded .nonCanonical "agent transaction encoder produced an unexpected header width")
  let wireDigest ← digestEncoded sha256 wireDomain encoded
  return encoded ++ wireDigest.bytes

def AgentTransaction.fromKernelCommand (command : KernelCommand B) :
    Outcome (AgentTransaction B) := do
  validateCommandShape sha256 command
  let encoded ← encodeCommand sha256 command
  let transactionId ← getOr (Hash.ofBytes (encoded.drop (encoded.length - trailerBytes)))
    (.coded .nonCanonical "agent transaction trailer has the wrong width")
  return ⟨command, encoded, transactionId⟩

end

/-! ## Decoding -/

/-- `take_slice` and `take_array`. -/
def field (n : Nat) : Reader Failure Bytes :=
  .take n (.coded .nonCanonical "agent transaction ended inside a field")

/-- Little-endian words of any width. -/
def word (n : Nat) : Reader Failure Nat := do return Bytes.toNat (← field n)

def check (p : Prop) [Decidable p] (code : ErrorCode) (message : String) : Reader Failure Unit :=
  StateT.lift (require p (.coded code message))

def decodeOptionalId : Reader Failure (Option Bytes) := do
  let tag ← word 1
  let value ← field 32
  if tag = 0 then
    if value = List.replicate 32 0 then return none
    else .fail (.coded .nonCanonical "absent agent transaction identifier is nonzero")
  else if tag = 1 then
    if value ≠ List.replicate 32 0 then return some value
    else .fail (.coded .invalidBounds "present agent transaction identifier is zero")
  else .fail (.coded .nonCanonical "agent transaction optional identifier tag differs")

def readHeaderStart : Reader Failure Unit := do
  let magic ← field 8
  check (magic = agentTransactionMagic) .nonCanonical "agent transaction magic differs"
  let version ← word 2
  check (version = 1) .schemaMismatch "agent transaction wire version differs"
  let flags ← word 2
  check (flags = 0) .nonCanonical "agent transaction flags are nonzero"
  let _contextDigest ← field 32
  let _senderAgentId ← field 32
  let _authorizingKeyId ← field 32
  let _signerKeyId ← field 32

/-- The length of the command and the digest of its bytes. -/
def readHeaderEnd : Reader Failure (Nat × Bytes) := do
  let _liveCapabilityGeneration ← word 8
  let _sessionGeneration ← word 8
  let _nonceLane ← word 2
  let operationKind ← word 2
  check (2 ≤ operationKind ∧ operationKind ≤ 7) .invalidBounds
    "agent transaction operation kind is outside the candidate registry"
  let _nonce ← word 8
  let _expectedLaneVersion ← word 8
  let validAfterHeight ← word 8
  let expiresAfterHeight ← word 8
  check (validAfterHeight ≤ expiresAfterHeight) .invalidBounds
    "agent transaction validity interval is inverted"
  let commandLen ← word 4
  let payloadDigest ← field 32
  return (commandLen, payloadDigest)

def readHeader : Reader Failure (Nat × Bytes) := do
  readHeaderStart
  let _capabilityId ← decodeOptionalId
  let _sessionKeyGrantId ← decodeOptionalId
  readHeaderEnd

section
variable {B : Bodies} (sha256 : Bytes → Hash)

/-- `ParsedWireV1::decode`. -/
def parseWire (bytes : Bytes) : Outcome Bytes := do
  require (headerBytes + trailerBytes ≤ bytes.length)
    (.coded .nonCanonical "agent transaction is shorter than the fixed envelope")
  let ((commandLen, payloadDigest), rest) ← readHeader bytes
  require (commandLen ≤ maxAgentTransactionCommandBytes ∧ rest.length = commandLen + trailerBytes)
    (.coded .invalidBounds "agent transaction command length or trailing data differs")
  let (commandBytes, rest) ← field commandLen rest
  let (trailer, rest) ← field 32 rest
  require (rest = []) (.coded .nonCanonical "agent transaction has trailing data")
  let payload ← digestEncoded sha256 payloadDomain commandBytes
  require (payload.bytes = payloadDigest) (.coded .tamperDetected
    "agent transaction payload commitment differs")
  let wire ← digestEncoded sha256 wireDomain (bytes.take (bytes.length - trailerBytes))
  require (wire.bytes = trailer) (.coded .tamperDetected
    "agent transaction wire commitment differs")
  return commandBytes

def strictDecode {α : Type} (code : Borsh α) (bytes : Bytes) : Outcome α := do
  let (value, rest) ← getOr (code.decode bytes) (.coded .nonCanonical "Unexpected length of input")
  require (rest = []) (.coded .nonCanonical "Not all bytes read")
  let again ← canonicalBytes (code.encode value)
  require (again = bytes) (.coded .nonCanonical "candidate CEV1 bytes do not round-trip exactly")
  return value

def AgentTransaction.decode (bytes : Bytes) : Outcome (AgentTransaction B) := do
  let commandBytes ← parseWire sha256 bytes
  let command ← strictDecode KernelCommand.code commandBytes
  let canonical ← fromKernelCommand sha256 command
  require (canonical.encoded = bytes)
    (.coded .nonCanonical "agent transaction header does not match its canonical command payload")
  return canonical

end

/-! ## Reading the header -/

open Reader (Reads)

theorem reads_field (h : x.length = n) : Reads (field n) x x := Reader.reads_take h

theorem reads_word {n v : Nat} (h : v < 256 ^ n) : Reads (word n) (Bytes.ofNat n v) v := by
  have hread : Reads (word n) (Bytes.ofNat n v) (Bytes.toNat (Bytes.ofNat n v)) :=
    (reads_field (Bytes.length_ofNat n v)).andThen Reader.reads_pure
  rwa [Bytes.toNat_ofNat h] at hread

theorem reads_check {p : Prop} [Decidable p] {code : ErrorCode} {message : String} (h : p)
    {α : Type} {q : Reader Failure α} {x : Bytes} {a : α} (hq : Reads q x a) :
    Reads (do check p code message; q) x a :=
  Reads.check (a := ()) (require_eq_ok.mpr h) hq

theorem reads_id (h : Hash) : Reads (field 32) h.bytes h.bytes := reads_field h.size_eq

theorem reads_headerStart (authorization : KernelAuthorization) (contextDigest : Hash) :
    Reads readHeaderStart (headerStart authorization contextDigest).flatten () :=
  .cons (reads_field (by decide)) <| reads_check rfl <| .cons (reads_word (by decide)) <|
    reads_check rfl <|
    .cons (reads_word (by decide)) <| reads_check rfl <| .cons (reads_id _) <| .cons (reads_id _) <|
    .cons (reads_id _) <| .cons (reads_id _) Reader.reads_pure

theorem reads_headerEnd {statement : KernelAuthorizationStatement} {commandLen : Nat}
    {payloadDigest : Hash}
    (hkind : 2 ≤ statement.operationKind.toNat ∧ statement.operationKind.toNat ≤ 7)
    (hinterval : statement.validAfterHeight ≤ statement.expiresAfterHeight)
    (hlen : commandLen < 256 ^ 4) :
    Reads readHeaderEnd (headerEnd statement commandLen payloadDigest).flatten
      (commandLen, payloadDigest.bytes) := by
  have hword (n : U64) : Reads (word 8) (Bytes.ofNat 8 n.toNat) n.toNat := reads_word n.isLt
  have hshort (n : U16) : Reads (word 2) (Bytes.ofNat 2 n.toNat) n.toNat := reads_word n.isLt
  exact .cons (hword _) <| .cons (hword _) <| .cons (hshort _) <| .cons (hshort _) <|
    reads_check hkind <| .cons (hword _) <| .cons (hword _) <| .cons (hword _) <| .cons (hword _) <|
    reads_check (BitVec.le_def.mp hinterval) <| .cons (reads_word hlen) <|
      .cons (reads_id _) Reader.reads_pure

/-- A present identifier of zeros. -/
def ZeroId (id : Option Hash) : Prop := id = some Hash.zero

instance {id : Option Hash} : Decidable (ZeroId id) := inferInstanceAs (Decidable (_ = _))

/-- The decoder behind the tag and the value. -/
theorem decodeOptionalId_run (tag : Nat) (htag : tag < 256) (value : Hash) (rest : Bytes) :
    decodeOptionalId (Bytes.ofNat 1 tag ++ (value.bytes ++ rest)) = (if tag = 0 then
        if value.bytes = List.replicate 32 0 then return none
        else .fail (.coded .nonCanonical "absent agent transaction identifier is nonzero")
      else if tag = 1 then if value.bytes ≠ List.replicate 32 0 then return some value.bytes
        else .fail (.coded .invalidBounds "present agent transaction identifier is zero")
      else .fail (.coded .nonCanonical "agent transaction optional identifier tag differs") :
        Reader Failure (Option Bytes)) rest := by
  rw [decodeOptionalId, (reads_word htag).run_bind, (reads_id value).run_bind]

theorem reads_optionalId {id : Option Hash} (h : ¬ ZeroId id) :
    Reads decodeOptionalId (encodeOptionalId id) (id.map Hash.bytes) := by
  intro rest
  cases id with
  | none => exact decodeOptionalId_run 0 (by decide) Hash.zero rest
  | some value =>
    have hne : value.bytes ≠ List.replicate 32 0 := fun heq =>
      h (congrArg some (Hash.ext_bytes heq))
    have hrun := decodeOptionalId_run 1 (by decide) value rest
    rw [if_neg (by decide), if_pos rfl, if_pos hne] at hrun
    exact hrun

/-- It is written but not read. -/
theorem decodeOptionalId_zero (rest : Bytes) :
    decodeOptionalId (encodeOptionalId (some Hash.zero) ++ rest) =
      .error (.coded .invalidBounds "present agent transaction identifier is zero") :=
  decodeOptionalId_run 1 (by decide) Hash.zero rest

section
variable {authorization : KernelAuthorization} {contextDigest payloadDigest : Hash}
  {commandLen : Nat} {rest : Bytes}

theorem readHeader_eq
    (hkind : 2 ≤ authorization.statement.operationKind.toNat ∧
      authorization.statement.operationKind.toNat ≤ 7)
    (hinterval : authorization.statement.validAfterHeight ≤
      authorization.statement.expiresAfterHeight)
    (hlen : commandLen < 256 ^ 4) (hcapability : ¬ ZeroId authorization.statement.capabilityId)
    (hsession : ¬ ZeroId authorization.statement.sessionKeyGrantId) :
    readHeader (header authorization contextDigest commandLen payloadDigest ++ rest) =
      .ok ((commandLen, payloadDigest.bytes), rest) := by
  rw [header, readHeader, List.append_assoc, List.append_assoc, List.append_assoc,
    (reads_headerStart authorization contextDigest).run_bind,
    (reads_optionalId hcapability).run_bind, (reads_optionalId hsession).run_bind]
  exact reads_headerEnd hkind hinterval hlen rest

/-- A header with a present identifier of zeros is not read. -/
theorem readHeader_zero (h : ZeroId authorization.statement.capabilityId ∨
      ZeroId authorization.statement.sessionKeyGrantId) :
    readHeader (header authorization contextDigest commandLen payloadDigest ++ rest) =
      .error (.coded .invalidBounds "present agent transaction identifier is zero") := by
  rw [header, readHeader, List.append_assoc, List.append_assoc, List.append_assoc,
    (reads_headerStart authorization contextDigest).run_bind]
  by_cases hcapability : ZeroId authorization.statement.capabilityId
  · rw [hcapability]
    exact Reader.bind_run_of_error (decodeOptionalId_zero _)
  · rw [(reads_optionalId hcapability).run_bind, h.resolve_left hcapability]
    exact Reader.bind_run_of_error (decodeOptionalId_zero _)

end

/-! ## Round trips -/

section
variable {B : Bodies} {sha256 : Bytes → Hash} {command : KernelCommand B} {tx : AgentTransaction B}

theorem operationKind_mem (command : KernelCommand B) :
    2 ≤ command.operationKind.toNat ∧ command.operationKind.toNat ≤ 7 := by
  cases command <;> (simp only [KernelCommand.operationKind]; decide)

theorem encodeCommand_eq_ok {encoded : Bytes} (h : encodeCommand sha256 command = .ok encoded) :
    ∃ commandBytes contextDigest, KernelCommand.code.encode command = some commandBytes ∧
      commandBytes.length ≤ maxAgentTransactionCommandBytes ∧
      ∃ front, front = header command.authorization contextDigest commandBytes.length
          (sha256 (digestMessage payloadDomain commandBytes)) ∧ front.length = headerBytes ∧
        encoded = front ++ (commandBytes ++
          (sha256 (digestMessage wireDomain (front ++ commandBytes))).bytes) := by
  have hpayload : Domain payloadDomain := by decide
  have hwire : Domain wireDomain := by decide
  simp only [encodeCommand, canonicalBytes, bind_eq_ok, getOr_eq_ok, require_eq_ok, pure_eq_ok,
    digestEncoded_of_domain hpayload, digestEncoded_of_domain hwire, Except.ok.injEq] at h
  obtain ⟨commandBytes, hbytes, _, hbound, _, -, contextDigest, -, _, rfl, _, hlength, _, rfl,
    rfl⟩ := h
  refine ⟨commandBytes, contextDigest, hbytes, hbound, _, rfl, ?_, List.append_assoc ..⟩
  rw [List.length_append] at hlength
  omega

theorem strictDecode_of_encode {α : Type} {code : Borsh α} {value : α}
    (h : code.encode value = some bs) :
    strictDecode code bs = .ok value := by
  have hdecode := code.decode_encode h []
  rw [List.append_nil] at hdecode
  simp only [strictDecode, canonicalBytes, bind_eq_ok, getOr_eq_ok, require_eq_ok, pure_eq_ok]
  exact ⟨_, hdecode, (), rfl, bs, h, (), rfl, rfl⟩

/-- What was accepted is parsed, unless an identifier of zeros is present. -/
theorem parseWire_eq
    (hshape : validateCommandShape sha256 command = .ok ())
    (hbound : commandBytes.length ≤ maxAgentTransactionCommandBytes)
    (hfront : front = header command.authorization contextDigest commandBytes.length
      (sha256 (digestMessage payloadDomain commandBytes))) (hlength : front.length = headerBytes)
    (hcapability : ¬ ZeroId command.authorization.statement.capabilityId)
    (hsession : ¬ ZeroId command.authorization.statement.sessionKeyGrantId) :
    parseWire sha256 (front ++
      (commandBytes ++ (sha256 (digestMessage wireDomain (front ++ commandBytes))).bytes)) =
      .ok commandBytes := by
  have hpayload : Domain payloadDomain := by decide
  have hwire : Domain wireDomain := by decide
  simp only [validateCommandShape, bind_eq_ok, require_eq_ok] at hshape
  obtain ⟨_, ⟨-, -, -, -, hkind⟩, _, -, -, hinterval, -⟩ := hshape
  have hword : commandBytes.length < 256 ^ 4 := lt_of_le_of_lt hbound (by decide)
  generalize htrailer : sha256 (digestMessage wireDomain (front ++ commandBytes)) = trailer
  have hsize := trailer.size_eq
  have hread : readHeader (front ++ (commandBytes ++ trailer.bytes)) = .ok ((commandBytes.length,
      (sha256 (digestMessage payloadDomain commandBytes)).bytes),
      commandBytes ++ trailer.bytes) := by
    rw [hfront]
    exact readHeader_eq (by rw [hkind]; exact operationKind_mem command) hinterval hword
      hcapability hsession
  have hcommand := reads_field (x := commandBytes) rfl trailer.bytes
  have hlast := reads_id trailer []
  rw [List.append_nil] at hlast
  have htotal : (front ++ (commandBytes ++ trailer.bytes)).length =
      headerBytes + (commandBytes.length + trailerBytes) := by
    rw [List.length_append, List.length_append, hlength, hsize]
    rfl
  have hunsigned : (front ++ (commandBytes ++ trailer.bytes)).take
      ((front ++ (commandBytes ++ trailer.bytes)).length - trailerBytes) =
        front ++ commandBytes := by
    rw [htotal, ← List.append_assoc]
    refine List.take_left' ?_
    rw [List.length_append, hlength]
    omega
  simp only [parseWire, bind_eq_ok, require_eq_ok, pure_eq_ok, hunsigned,
    digestEncoded_of_domain hpayload, digestEncoded_of_domain hwire]
  refine ⟨(), by rw [htotal]; omega, _, hread, (), ⟨hbound, by rw [List.length_append, hsize]; rfl⟩,
    _, hcommand, _, hlast, (), rfl, _, rfl, (), rfl, _, rfl, (), ?_, rfl⟩
  rw [htrailer]

variable (h : AgentTransaction.fromKernelCommand sha256 command = .ok tx)
include h

theorem fromKernelCommand_eq_ok :
    tx.command = command ∧ validateCommandShape sha256 command = .ok () ∧
      encodeCommand sha256 command = .ok tx.encoded := by
  simp only [AgentTransaction.fromKernelCommand, bind_eq_ok, pure_eq_ok] at h
  obtain ⟨_, hshape, encoded, hencoded, _, -, rfl⟩ := h
  exact ⟨rfl, hshape, hencoded⟩

/-- An accepted command is decoded from its bytes, unless an identifier of zeros is present. -/
theorem decode_encoded (hcapability : ¬ ZeroId command.authorization.statement.capabilityId)
    (hsession : ¬ ZeroId command.authorization.statement.sessionKeyGrantId) :
    AgentTransaction.decode sha256 tx.encoded = .ok tx := by
  obtain ⟨rfl, hshape, hencode⟩ := fromKernelCommand_eq_ok h
  obtain ⟨commandBytes, contextDigest, hbytes, hbound, front, hfront, hlength, hencoded⟩ :=
    encodeCommand_eq_ok hencode
  have hparse := parseWire_eq hshape hbound hfront hlength hcapability hsession
  rw [← hencoded] at hparse
  simp only [AgentTransaction.decode, bind_eq_ok, require_eq_ok, pure_eq_ok]
  exact ⟨commandBytes, hparse, tx.command, strictDecode_of_encode hbytes, tx, h, (), rfl, rfl⟩

theorem decode_zero (hzero : ZeroId command.authorization.statement.capabilityId ∨
      ZeroId command.authorization.statement.sessionKeyGrantId) :
    (AgentTransaction.decode sha256 tx.encoded : Outcome (AgentTransaction B)) =
      .error (.coded .invalidBounds "present agent transaction identifier is zero") := by
  obtain ⟨rfl, -, hencode⟩ := fromKernelCommand_eq_ok h
  obtain ⟨commandBytes, contextDigest, -, -, front, hfront, hlength, hencoded⟩ :=
    encodeCommand_eq_ok hencode
  generalize sha256 (digestMessage wireDomain (front ++ commandBytes)) = trailer at hencoded
  have hlong : headerBytes + trailerBytes ≤ (front ++ (commandBytes ++ trailer.bytes)).length := by
    rw [List.length_append, List.length_append, hlength, trailer.size_eq]
    simp only [trailerBytes]
    omega
  have hread : readHeader (front ++ (commandBytes ++ trailer.bytes)) =
      .error (.coded .invalidBounds "present agent transaction identifier is zero") := by
    rw [hfront]
    exact readHeader_zero hzero
  rw [hencoded, AgentTransaction.decode, parseWire, require, if_pos hlong, bind_of_ok rfl, hread]
  rfl

omit h

/-- What is decoded is the transaction of its command, with the bytes it was decoded from. -/
theorem decode_eq_ok {bytes : Bytes} (h : AgentTransaction.decode sha256 bytes = .ok tx) :
    AgentTransaction.fromKernelCommand sha256 tx.command = .ok tx ∧ tx.encoded = bytes := by
  simp only [AgentTransaction.decode, bind_eq_ok, require_eq_ok, pure_eq_ok] at h
  obtain ⟨_, -, command, -, tx, htx, _, hbytes, rfl⟩ := h
  rw [(fromKernelCommand_eq_ok htx).1]
  exact ⟨htx, hbytes⟩

end

/-- Accepted commands round-trip exactly when no identifier of zeros is present, and accepted bytes
are those of their command. -/
theorem transaction_round_trips_iff (B : Bodies) (sha256 : Bytes → Hash) :
    (∀ (command : KernelCommand B) (tx : AgentTransaction B),
      AgentTransaction.fromKernelCommand sha256 command = .ok tx →
      ((∃ tx' : AgentTransaction B, AgentTransaction.decode sha256 tx.encoded = .ok tx' ∧
          tx'.command = command ∧
          tx'.transactionId = tx.transactionId) ↔
        ¬ ZeroId command.authorization.statement.capabilityId ∧
          ¬ ZeroId command.authorization.statement.sessionKeyGrantId)) ∧
    ∀ (bytes : Bytes) (tx : AgentTransaction B), AgentTransaction.decode sha256 bytes = .ok tx →
      ∃ tx' : AgentTransaction B, AgentTransaction.fromKernelCommand sha256 tx.command = .ok tx' ∧
        tx'.encoded = bytes := by
  refine ⟨fun command tx h => ⟨?_, fun ⟨hcapability, hsession⟩ => ?_⟩, fun bytes tx h =>
    ⟨tx, decode_eq_ok h⟩⟩
  · rintro ⟨tx', hdecode, -, -⟩
    rw [← not_or]
    intro hzero
    rw [decode_zero h hzero] at hdecode
    cases hdecode
  · exact ⟨tx, decode_encoded h hcapability hsession, (fromKernelCommand_eq_ok h).1, rfl⟩

/-! ## Samples -/

def unitCode : Borsh Unit := .fixed 0 (fun _ => []) (fun _ => some ()) (fun _ => rfl) fun _ => rfl

def sampleBodies : Bodies :=
  ⟨Unit, Unit, Unit, Unit, Unit, Unit, Unit, unitCode, unitCode, unitCode, unitCode, unitCode,
    unitCode, unitCode⟩

def sampleCommand (capabilityId : Option Hash) : KernelCommand sampleBodies :=
  .capabilityGrant () ⟨⟨1, ⟨Hash.ofByte 1, Bytes.ofString "trnm", 1, Hash.ofByte 2⟩, 2,
    Hash.checksum (digestMessage "trnm.portable.v2.capability-grant-operation.candidate.v1" []),
    Hash.ofByte 3, Hash.ofByte 4, capabilityId, 0, none, 0, 1, 1, 0, 5, 9⟩, Hash.ofByte 4,
    List.replicate 64 0⟩

def sampleTransaction (capabilityId : Option Hash) : AgentTransaction sampleBodies :=
  (AgentTransaction.fromKernelCommand Hash.checksum (sampleCommand capabilityId)).toOption.getD
    ⟨sampleCommand capabilityId, [], Hash.zero⟩

theorem fromKernelCommand_sample {capabilityId : Option Hash}
    (h : (AgentTransaction.fromKernelCommand Hash.checksum
      (sampleCommand capabilityId)).toOption.isSome) :
    AgentTransaction.fromKernelCommand Hash.checksum (sampleCommand capabilityId) =
      .ok (sampleTransaction capabilityId) := by
  obtain ⟨tx, htx⟩ := Option.isSome_iff_exists.mp h
  rw [sampleTransaction, htx]
  exact toOption_eq_some.mp htx

theorem sampleCommand_round_trips :
    (∃ tx : AgentTransaction sampleBodies,
      AgentTransaction.decode Hash.checksum (sampleTransaction (some (Hash.ofByte 7))).encoded =
        .ok tx ∧
      tx.command = sampleCommand (some (Hash.ofByte 7)) ∧
      tx.transactionId = (sampleTransaction (some (Hash.ofByte 7))).transactionId) ∧
    ∃ tx : AgentTransaction sampleBodies,
      AgentTransaction.fromKernelCommand Hash.checksum (sampleCommand (some (Hash.ofByte 7))) =
        .ok tx ∧
      tx.encoded = (sampleTransaction (some (Hash.ofByte 7))).encoded := by
  obtain ⟨hencode, hdecode⟩ := transaction_round_trips_iff sampleBodies Hash.checksum
  have hsample := @fromKernelCommand_sample (some (Hash.ofByte 7)) (by decide +kernel)
  obtain ⟨tx, htx, hcommand, hid⟩ := (hencode _ _ hsample).mpr (by decide +kernel)
  have hagain := hdecode _ _ htx
  rw [hcommand] at hagain
  exact ⟨⟨tx, htx, hcommand, hid⟩, hagain⟩

/-- The encoder accepts a present identifier of zeros, the decoder refuses the bytes. -/
theorem zero_capability_not_decoded :
    AgentTransaction.fromKernelCommand Hash.checksum (sampleCommand (some Hash.zero)) =
      .ok (sampleTransaction (some Hash.zero)) ∧
    (AgentTransaction.decode Hash.checksum (sampleTransaction (some Hash.zero)).encoded :
        Outcome (AgentTransaction sampleBodies)) =
      .error (.coded .invalidBounds "present agent transaction identifier is zero") := by
  have hsample := @fromKernelCommand_sample (some Hash.zero) (by decide +kernel)
  exact ⟨hsample, decode_zero hsample (.inl rfl)⟩

end Trillionnium.TaskKernel
