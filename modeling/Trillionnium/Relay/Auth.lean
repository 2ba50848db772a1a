import Mathlib.Data.String.Basic
import Trillionnium.Hash
import Trillionnium.Lib.Checked
import Trillionnium.Lib.Delimited
import Trillionnium.Lib.Mutable
import Trillionnium.Lib.Text

/-!
# Authentication of relayed envelopes

The envelope, the two texts that a sender may sign for it, and the verifier that keeps the last
sequence number and the nonces of each session. The signature check is a parameter of the verifier's
call.
-/

namespace Trillionnium.Relay

open Lib Lib.Text Pon

structure RelayAuthEnvelope where
  version : String
  chainId : String
  taskId : String
  sessionId : String
  seq : U64
  timestampMs : U128
  msgType : String
  from_ : String
  to_ : String
  nonce : String
  payload : Bytes
  payloadHash : String
  sig : String
  deriving DecidableEq

def specVersion : String := "p2p-v0.2"

def legacySpecVersion : String := "p2p-v0.1"

def signingDomainV1 : String := "TRNM_P2P_V1"

variable (sha256 : Bytes → Hash) (env : RelayAuthEnvelope)

namespace RelayAuthEnvelope

def payloadHashHex (payload : Bytes) : String := (sha256 payload).hex

/-- Without the chain. -/
def signingMessageLegacyV0 : String :=
  Delimited.join '|' [env.version, env.taskId, env.sessionId, toString env.seq.toNat,
    toString env.timestampMs.toNat, env.msgType, env.from_, env.to_, env.nonce, env.payloadHash]

def signingMessage : String :=
  Delimited.join '|' [signingDomainV1, env.chainId, env.msgType, env.version, env.taskId,
    env.sessionId, toString env.seq.toNat, toString env.timestampMs.toNat, env.from_, env.to_,
    env.nonce, env.payloadHash]

def isSupportedType : Bool :=
  env.msgType ∈ ["TASK_ACCEPT", "INPUT_CHUNK", "RESULT_META", "RESULT_POINTER", "ACK",
    "ERROR", "CLOSE"]

def requiresRoutingFields : Bool :=
  env.msgType ∈ ["TASK_ACCEPT", "INPUT_CHUNK", "RESULT_META", "RESULT_POINTER", "ACK",
    "ERROR", "CLOSE"]

/-- The stand-in signature of a text under a key. -/
def testSig (message keyMaterial : String) : String :=
  (sha256 (Bytes.ofString message ++ Bytes.ofString "|" ++ Bytes.ofString keyMaterial)).hex

def signForTest (keyMaterial : String) : String :=
  testSig sha256 env.signingMessage keyMaterial

def signForTestLegacyV0 (keyMaterial : String) :
    String :=
  testSig sha256 env.signingMessageLegacyV0 keyMaterial

def verifyTestSigCompat (keyMaterial : String) : Bool :=
  env.signForTest sha256 keyMaterial = env.sig ||
    (env.version = legacySpecVersion && env.signForTestLegacyV0 sha256 keyMaterial = env.sig)

end RelayAuthEnvelope

inductive RelayAuthError where
  | payloadHashMismatch
  | badSig
  | seqRegression (lastSeq gotSeq : U64)
  | seqGap (expectedSeq gotSeq : U64)
  | replay (nonce : String)
  | timeSkew (nowMs gotMs maxSkewMs : U128)
  | badVersion (expected got : String)
  | unsupportedType (got : String)
  | missingRequiredField (field : String)

/-- Chain, task, session and sender. -/
abbrev SeqKey := String ×ₗ String ×ₗ String ×ₗ String

structure RelayAuthVerifier where
  maxSkewMs : U128
  allowLegacyV0 : Bool
  lastSeq : OrdMap SeqKey U64
  seenNonce : OrdMap (SeqKey ×ₗ String) Unit

def RelayAuthEnvelope.seqKey : SeqKey :=
  toLex (env.chainId, toLex (env.taskId, toLex (env.sessionId, env.from_)))

def RelayAuthEnvelope.nonceKey : SeqKey ×ₗ String := toLex (env.seqKey, env.nonce)

namespace RelayAuthVerifier

def new (maxSkewMs : U128) : RelayAuthVerifier := ⟨maxSkewMs, true, ∅, ∅⟩

def strict (maxSkewMs : U128) : RelayAuthVerifier := ⟨maxSkewMs, false, ∅, ∅⟩

/-- A text of the signed message: not blank, trimmed, without the delimiter. -/
def checkField (field value : String) : Except RelayAuthError Unit :=
  require (trim value ≠ "" ∧ trim value = value ∧ '|' ∉ value.toList) (.missingRequiredField field)

/-- The fields that route the envelope, if its type has them. -/
def checkRouting (isCurrent : Bool) : Except RelayAuthError Unit :=
  if env.requiresRoutingFields then do
    require (¬ (trim env.chainId = "" ∧ isCurrent)) (.missingRequiredField "chain_id")
    require (¬ (isCurrent ∧ trim env.chainId ≠ env.chainId)) (.missingRequiredField "chain_id")
    require (trim env.sessionId ≠ "") (.missingRequiredField "session_id")
    require (trim env.sessionId = env.sessionId) (.missingRequiredField "session_id")
    require (env.seq ≠ 0) (.missingRequiredField "seq")
  else
    .ok ()

def verifyEnvelopeFields (v : RelayAuthVerifier) (env : RelayAuthEnvelope)
    (verifySignature : RelayAuthEnvelope → Bool) : Except RelayAuthError Unit := do
  let isCurrent : Bool := env.version = specVersion
  let isLegacy : Bool := env.version = legacySpecVersion
  let expected := if v.allowLegacyV0 then specVersion ++ "|" ++ legacySpecVersion else specVersion
  require (isCurrent ∨ (v.allowLegacyV0 ∧ isLegacy)) (.badVersion expected env.version)
  require env.isSupportedType (.unsupportedType env.msgType)
  checkRouting env isCurrent
  [("task_id", env.taskId), ("session_id", env.sessionId), ("msg_type", env.msgType),
    ("from", env.from_), ("to", env.to_), ("nonce", env.nonce),
    ("payload_hash", env.payloadHash)].forM fun (field, value) =>
      checkField field value
  require (¬ (isCurrent ∧ '|' ∈ env.chainId.toList)) (.missingRequiredField "chain_id")
  require (RelayAuthEnvelope.payloadHashHex sha256 env.payload = env.payloadHash)
    .payloadHashMismatch
  require (verifySignature env) .badSig

/-- How far the clock is from the envelope, in either direction. -/
def checkSkew (v : RelayAuthVerifier) (env : RelayAuthEnvelope) (nowMs : U128) :
    Except RelayAuthError Unit :=
  if nowMs < env.timestampMs then
    require (env.timestampMs - nowMs ≤ v.maxSkewMs) (.timeSkew nowMs env.timestampMs v.maxSkewMs)
  else
    require (nowMs - env.timestampMs ≤ v.maxSkewMs) (.timeSkew nowMs env.timestampMs v.maxSkewMs)

def checkSeq (v : RelayAuthVerifier) (env : RelayAuthEnvelope) : Except RelayAuthError Unit :=
  match v.lastSeq.get env.seqKey with
  | none => .ok ()
  | some lastSeq => do
    require (lastSeq < env.seq) (.seqRegression lastSeq env.seq)
    let expectedSeq := saturatingAdd lastSeq 1
    require (env.seq = expectedSeq) (.seqGap expectedSeq env.seq)

def verify (nowMs : U128)
    (verifySignature : RelayAuthEnvelope → Bool) :
    EStateM RelayAuthError RelayAuthVerifier Unit := do
  let v ← get
  lift (v.verifyEnvelopeFields sha256 env verifySignature)
  lift (v.checkSkew env nowMs)
  lift (v.checkSeq env)
  lift (require (v.seenNonce.get env.nonceKey = none) (.replay env.nonce))
  modify fun v => { v with lastSeq := v.lastSeq.insert env.seqKey env.seq }
  modify fun v => { v with seenNonce := v.seenNonce.insert env.nonceKey () }

end RelayAuthVerifier

end Trillionnium.Relay
