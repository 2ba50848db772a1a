import Trillionnium.Hash
import Trillionnium.Lib.Fallible
import Trillionnium.Lib.Layout

/-!
# Tagged hashes

The hash of the development network, `hash` of `pon_wire.rs`, `pon_work.rs` and `H` of
`contract_wire.py`: a fixed start, the tag behind its length and every part behind its own. The
native code cuts the lengths to their width, the oracle refuses what does not fit.
-/

namespace Trillionnium.Pon

open Lib

/-- What the oracle raises: a `ValueError` with its text, a `struct.error` or an `IndexError`. -/
inductive Raised
  | valueError (text : String)
  | structError
  | indexError
  deriving DecidableEq

/-- Errors of `pon_wire.rs`. -/
inductive WireError
  | length
  | version
  | noncanonical
  | limit
  | keyCollision

def message (tag : String) (parts : List Bytes) : Bytes :=
  Bytes.ofString "TRNM-PON1\x00" ++
    (Bytes.ofNat 2 (Bytes.ofString tag).length ++ (Bytes.ofString tag ++ Bytes.frames 4 parts))

/-- The lengths fit their fields. -/
def Framed (tag : String) (parts : List Bytes) : Prop :=
  (Bytes.ofString tag).length < 256 ^ 2 ∧ ∀ part ∈ parts, part.length < 256 ^ 4

instance {tag : String} {parts : List Bytes} : Decidable (Framed tag parts) :=
  inferInstanceAs (Decidable (_ ∧ _))

/-- Messages tell their tags and their parts. -/
theorem message_inj (h : Framed tag parts)
    (h' : Framed tag' parts') (heq : message tag parts = message tag' parts') :
    tag = tag' ∧ parts = parts' := by
  have heq := List.append_cancel_left heq
  obtain ⟨hlength, heq⟩ := List.append_inj heq (by simp)
  have hlength : (Bytes.ofString tag).length = (Bytes.ofString tag').length := by
    rw [← Bytes.toNat_ofNat h.1, hlength, Bytes.toNat_ofNat h'.1]
  obtain ⟨htag, hparts⟩ := List.append_inj heq hlength
  exact ⟨Bytes.ofString_inj htag, Bytes.frames_inj (by decide) h.2 h'.2 hparts⟩

section
variable (sha256 : Bytes → Hash)

def hash (tag : String) (parts : List Bytes) : Hash := sha256 (message tag parts)

def H (tag : String) (parts : List Bytes) : Except Raised Hash := do
  require (Framed tag parts) .structError
  return hash sha256 tag parts

end

variable {sha256 : Bytes → Hash} {tag : String} {parts : List Bytes}

theorem H_eq_ok : H sha256 tag parts = .ok h ↔ Framed tag parts ∧ hash sha256 tag parts = h := by
  simp only [H, bind_eq_ok, require_eq_ok, pure_eq_ok, exists_const]

theorem H_of_framed (h : Framed tag parts) : H sha256 tag parts = .ok (hash sha256 tag parts) :=
  H_eq_ok.mpr ⟨h, rfl⟩

/-- Equal hashes of messages that are told apart have equal tags and parts. -/
theorem hash_inj (hclean : Set.InjOn sha256 messages) (h : Framed tag parts)
    (h' : Framed tag' parts') (hm : message tag parts ∈ messages)
    (hm' : message tag' parts' ∈ messages) (heq : hash sha256 tag parts = hash sha256 tag' parts') :
    tag = tag' ∧ parts = parts' :=
  message_inj h h' (hclean hm hm' heq)

/-- Two digests are parts of any tag that fits. -/
theorem framed_pair (htag : (Bytes.ofString tag).length < 256 ^ 2) (a b : Hash) :
    Framed tag [a.bytes, b.bytes] := by
  refine ⟨htag, ?_⟩
  simp [a.size_eq, b.size_eq]

end Trillionnium.Pon
