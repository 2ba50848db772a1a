import Trillionnium.Lib.Bytes

/-!
# Machine integers

Unsigned integers of fixed width, with the arithmetic that fails instead of wrapping.
-/

namespace Lib

abbrev U8 := BitVec 8
abbrev U16 := BitVec 16
abbrev U32 := BitVec 32
abbrev U64 := BitVec 64
abbrev U128 := BitVec 128

instance lawfulBEqU64 : LawfulBEq U64 := inferInstance

/-! Counts and capacities are natural numbers; what saturates does so at the largest word. -/

def usizeMax : Nat := 2 ^ 64 - 1

/-- `usize::saturating_add` -/
def usizeAdd (a b : Nat) : Nat := min (a + b) usizeMax

/-- `usize::saturating_mul` -/
def usizeMul (a b : Nat) : Nat := min (a * b) usizeMax

section
variable {E : Type} {w n : Nat}

def checkedAdd (a b : BitVec w) (failure : E) : Except E (BitVec w) :=
  if a.toNat + b.toNat < 2 ^ w then .ok (a + b) else .error failure

def checkedSub (a b : BitVec w) (failure : E) : Except E (BitVec w) :=
  if b ≤ a then .ok (a - b) else .error failure

def checkedMul (a b : BitVec w) (failure : E) : Except E (BitVec w) :=
  if a.toNat * b.toNat < 2 ^ w then .ok (a * b) else .error failure

/-- The sum, or the largest value where it does not fit. -/
def saturatingAdd (a b : BitVec w) : BitVec w :=
  if a.toNat + b.toNat < 2 ^ w then a + b else .allOnes w

variable {a b c : BitVec w} {e : E}

theorem toNat_saturatingAdd : (saturatingAdd a b).toNat = min (a.toNat + b.toNat) (2 ^ w - 1) := by
  unfold saturatingAdd
  split
  · rename_i h
    rw [BitVec.toNat_add, Nat.mod_eq_of_lt h]
    omega
  · rw [BitVec.toNat_allOnes]
    omega

@[simp] theorem checkedAdd_eq_ok : checkedAdd a b e = .ok c ↔ c.toNat = a.toNat + b.toNat := by
  unfold checkedAdd
  split
  · rename_i h
    rw [Except.ok.injEq, ← BitVec.toNat_inj, BitVec.toNat_add, Nat.mod_eq_of_lt h, eq_comm]
  · have := c.isLt
    simp only [reduceCtorEq, false_iff]
    omega

@[simp] theorem checkedSub_eq_ok : checkedSub a b e = .ok c ↔ c.toNat + b.toNat = a.toNat := by
  unfold checkedSub
  split
  · rename_i h
    have hle := BitVec.le_def.mp h
    rw [Except.ok.injEq, ← BitVec.toNat_inj, BitVec.toNat_sub_of_le h]
    omega
  · rename_i h
    have hlt := BitVec.le_def.not.mp h
    simp only [reduceCtorEq, false_iff]
    omega

@[simp] theorem checkedMul_eq_ok : checkedMul a b e = .ok c ↔ c.toNat = a.toNat * b.toNat := by
  unfold checkedMul
  split
  · rename_i h
    rw [Except.ok.injEq, ← BitVec.toNat_inj, BitVec.toNat_mul, Nat.mod_eq_of_lt h, eq_comm]
  · have := c.isLt
    simp only [reduceCtorEq, false_iff]
    omega

end

end Lib
