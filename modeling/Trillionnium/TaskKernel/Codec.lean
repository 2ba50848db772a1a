import Trillionnium.Lib.Layout
import Trillionnium.Mvcc.Types

/-!
# Errors and digests of the task kernel

The error codes of `error.rs`, the digest of `codec.rs` and the protocol context with its Borsh
encoding. Texts are their UTF-8 bytes. SHA-256 is a parameter.
-/

namespace Trillionnium.TaskKernel

open Lib Pon
open Mvcc (Borsh u32 hash32 bytes)

/-- `AgentMarketErrorCodeV1`, as far as transactions and the archive use it. -/
inductive ErrorCode where
  | invalidContext
  | invalidBounds
  | nonCanonical
  | invalidState
  | conservationViolation
  | conflict
  | notFound
  | arithmeticOverflow
  | schemaMismatch
  | tamperDetected
  deriving DecidableEq

/-- What ends a computation without a value: an error of the source, or a panic. -/
inductive Failure where
  | coded (code : ErrorCode) (message : String)
  | panicked (message : String)
  deriving DecidableEq

abbrev Outcome (α : Type) := Except Failure α

abbrev overflow (message : String) : Failure := .coded .arithmeticOverflow message

def canonicalBytes (encoded : Option Bytes) : Outcome Bytes :=
  getOr encoded (.coded .nonCanonical "invalid data")

def digestEncoded (sha256 : Bytes → Hash) (domain : String) (encoded : Bytes) : Outcome Hash := do
  let name := Bytes.ofString domain
  require (name ≠ [] ∧ name.all (· < 128))
    (.coded .invalidBounds "digest domain must be nonempty ASCII")
  require (name.length < 2 ^ 32) (overflow "digest domain exceeds u32")
  return sha256 (Bytes.ofNat 4 name.length ++ name ++ encoded)

def digestValue (sha256 : Bytes → Hash) (domain : String) (encoded : Option Bytes) :
    Outcome Hash := do
  let encoded ← canonicalBytes encoded
  digestEncoded sha256 domain encoded

def digestMessage (domain : String) (encoded : Bytes) : Bytes :=
  Bytes.ofNat 4 (Bytes.ofString domain).length ++ Bytes.ofString domain ++ encoded

/-- A domain that the digest accepts. -/
def Domain (domain : String) : Prop :=
  (Bytes.ofString domain ≠ [] ∧ (Bytes.ofString domain).all (· < 128)) ∧
    (Bytes.ofString domain).length < 2 ^ 32

instance {domain : String} : Decidable (Domain domain) := inferInstanceAs (Decidable (_ ∧ _))

section
variable {sha256 : Bytes → Hash} {domain : String}

theorem digestEncoded_of_domain (h : Domain domain) (encoded : Bytes) :
    digestEncoded sha256 domain encoded = .ok (sha256 (digestMessage domain encoded)) := by
  rw [digestEncoded, require, if_pos h.1, bind_of_ok rfl, require, if_pos h.2, bind_of_ok rfl]
  rfl

theorem digestValue_eq_ok (h : Domain domain) {encoded : Option Bytes} {digest : Hash} :
    digestValue sha256 domain encoded = .ok digest ↔
      ∃ bs, encoded = some bs ∧ sha256 (digestMessage domain bs) = digest := by
  simp only [digestValue, canonicalBytes, bind_eq_ok, getOr_eq_ok, digestEncoded_of_domain h,
    Except.ok.injEq]

theorem digestMessage_inj {encoded encoded' : Bytes}
    (h : digestMessage domain encoded = digestMessage domain encoded') : encoded = encoded' :=
  List.append_cancel_left h

end

structure ProtocolContext where
  genesisHash : Hash
  chainId : Bytes
  protocolVersion : U32
  stackProfileHash : Hash
  deriving DecidableEq

def ProtocolContext.code : Borsh ProtocolContext :=
  (hash32.pair <| bytes.pair <| u32.pair hash32).record
    (fun ⟨a, b, c, d⟩ => (a, b, c, d)) ↿ProtocolContext.mk fun _ => rfl

end Trillionnium.TaskKernel
