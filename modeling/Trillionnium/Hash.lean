import Trillionnium.Lib.OrdMap
import Trillionnium.Lib.Bytes

/-!
# 32-byte identifiers

The hash values of `pon_wire.rs`, shared by the other components' records and ordered byte by byte.
-/

namespace Trillionnium.Pon

open Lib

/-- `[u8; 32]`. -/
structure Hash where
  bytes : Bytes
  size_eq : bytes.length = 32
  deriving DecidableEq

namespace Hash

theorem ext_bytes {a b : Hash} (h : a.bytes = b.bytes) : a = b := by
  cases a; cases b; cases h; rfl

def ofBytes (bs : Bytes) : Option Hash := if h : bs.length = 32 then some ⟨bs, h⟩ else none

def zero : Hash := ⟨List.replicate 32 0, rfl⟩

def hex (h : Hash) : String := Bytes.hex h.bytes

@[simp] theorem ofBytes_bytes (h : Hash) : ofBytes h.bytes = some h := by
  simp [ofBytes, h.size_eq]

instance : LinearOrder Hash where
  le a b := a.bytes ≤ b.bytes
  lt a b := a.bytes < b.bytes
  le_refl a := le_refl a.bytes
  le_trans _ _ _ := le_trans (α := Bytes)
  le_antisymm _ _ h h' := ext_bytes (le_antisymm h h')
  le_total a b := le_total a.bytes b.bytes
  lt_iff_le_not_ge a b := lt_iff_le_not_ge (a := a.bytes) (b := b.bytes)
  toDecidableLE a b := inferInstanceAs (Decidable (a.bytes ≤ b.bytes))
  toDecidableLT a b := inferInstanceAs (Decidable (a.bytes < b.bytes))
  toDecidableEq := inferInstance

instance : Inhabited Hash := ⟨zero⟩

/-- The identifier whose last byte is `b` and whose other bytes are zero. -/
def ofByte (b : UInt8) : Hash := ⟨List.replicate 31 0 ++ [b], rfl⟩

/-- A polynomial checksum that stands in for SHA-256 in samples. -/
def checksum (message : Bytes) : Hash :=
  ⟨Bytes.ofNat 32 (message.foldl (fun sum byte => 257 * sum + byte.toNat + 1) 0),
    Bytes.length_ofNat ..⟩

end Hash

end Trillionnium.Pon
