import Mathlib.Data.List.Flatten
import Mathlib.Data.List.Lex
import Mathlib.Tactic.Linarith
import Mathlib.Tactic.IntervalCases
import Mathlib.Tactic.Ring

/-!
# Byte strings

Little-endian and big-endian integers and lower-case hexadecimal text, with the round trips, and the
order of big-endian integers.
-/

namespace Lib

abbrev Bytes := List UInt8

instance instLinearOrderUInt8 : LinearOrder UInt8 where
  le_refl := UInt8.le_refl
  le_trans _ _ _ := UInt8.le_trans
  le_antisymm _ _ := UInt8.le_antisymm
  le_total := UInt8.le_total
  lt_iff_le_not_ge a b := by simp only [UInt8.le_iff_toNat_le, UInt8.lt_iff_toNat_lt]; omega
  toDecidableLE := inferInstance
  toDecidableLT := inferInstance
  toDecidableEq := inferInstance

instance instLinearOrderBitVec {w : Nat} : LinearOrder (BitVec w) where
  le_refl _ := BitVec.le_refl _
  le_trans _ _ _ := BitVec.le_trans
  le_antisymm _ _ := BitVec.le_antisymm
  le_total := BitVec.le_total
  lt_iff_le_not_ge a b := by simp only [BitVec.le_def, BitVec.lt_def]; omega
  toDecidableLE := inferInstance
  toDecidableLT := inferInstance
  toDecidableEq := inferInstance

namespace Bytes

/-- The UTF-8 bytes of a string. -/
def ofString (s : String) : Bytes := s.toByteArray.data.toList

theorem ofString_inj (h : ofString s = ofString t) : s = t := by
  apply String.toByteArray_inj.mp
  apply ByteArray.ext
  exact Array.toList_inj.mp h

/-- The bytes `0xF8` to `0xFF` do not occur in UTF-8. -/
theorem lt_of_mem_ofString (h : b ∈ ofString s) : b.toNat < 0xF8 := by
  have hchar (c : Char) : ∀ b ∈ String.utf8EncodeChar c, b.toNat < 0xF8 := by
    unfold String.utf8EncodeChar
    generalize c.val.toNat = v
    dsimp only
    split_ifs <;> simp <;> omega
  rw [ofString, ← String.utf8Encode_toList, List.utf8Encode, List.data_toByteArray,
    List.mem_flatMap] at h
  obtain ⟨c, -, hb⟩ := h
  exact hchar c b hb

/-! ## Little-endian integers -/

/-- `n` in `w` bytes, least significant first. -/
def ofNat : Nat → Nat → Bytes
  | 0, _ => []
  | w + 1, n => UInt8.ofNat (n % 256) :: ofNat w (n / 256)

def toNat : Bytes → Nat
  | [] => 0
  | b :: bs => b.toNat + 256 * toNat bs

@[simp] theorem length_ofNat (w n : Nat) : (ofNat w n).length = w := by
  induction w generalizing n with
  | zero => rfl
  | succ w ih => simp [ofNat, ih]

theorem toNat_lt (bs : Bytes) : toNat bs < 256 ^ bs.length := by
  induction bs with
  | nil => simp [toNat]
  | cons b bs ih =>
    have hb : b.toNat < 256 := b.toNat_lt
    simp only [toNat, List.length_cons, pow_succ]
    omega

theorem toNat_ofNat (h : n < 256 ^ w) : toNat (ofNat w n) = n := by
  induction w generalizing n with
  | zero => simp at h; simp [ofNat, toNat, h]
  | succ w ih =>
    have h' : n / 256 < 256 ^ w := by
      rw [Nat.div_lt_iff_lt_mul (by norm_num)]
      rwa [pow_succ] at h
    have hb : (UInt8.ofNat (n % 256)).toNat = n % 256 := by
      rw [UInt8.toNat_ofNat']; omega
    simp only [ofNat, toNat, ih h', hb]
    omega

theorem ofNat_toNat (bs : Bytes) : ofNat bs.length (toNat bs) = bs := by
  induction bs with
  | nil => rfl
  | cons b bs ih =>
    have hb : b.toNat < 256 := b.toNat_lt
    have h1 : (b.toNat + 256 * toNat bs) % 256 = b.toNat := by omega
    have h2 : (b.toNat + 256 * toNat bs) / 256 = toNat bs := by omega
    simp only [List.length_cons, ofNat, toNat, h1, h2, ih, UInt8.ofNat_toNat]

/-! ## Optional values -/

/-- A byte that says whether the value is there, and the value. -/
def optional (write : α → Bytes) : Option α → Bytes
  | some a => 1 :: write a
  | none => [0]

theorem optional_inj (hwrite : write.Injective) : (optional write).Injective := by
  rintro (_ | a) (_ | b) h
  · rfl
  · cases h
  · cases h
  · exact congrArg some (hwrite (List.cons.inj h).2)

/-! ## Big-endian integers -/

/-- `n` in `w` bytes, most significant first. -/
def ofNatBE (w n : Nat) : Bytes := (ofNat w n).reverse

def toNatBE (bs : Bytes) : Nat := toNat bs.reverse

@[simp] theorem length_ofNatBE (w n : Nat) : (ofNatBE w n).length = w := by simp [ofNatBE]

theorem toNatBE_ofNatBE (h : n < 256 ^ w) : toNatBE (ofNatBE w n) = n := by
  rw [toNatBE, ofNatBE, List.reverse_reverse, toNat_ofNat h]

theorem toNat_append (as bs : Bytes) :
    toNat (as ++ bs) = toNat as + 256 ^ as.length * toNat bs := by
  induction as with
  | nil => simp [toNat]
  | cons a as ih =>
    rw [List.cons_append, toNat, toNat, ih, List.length_cons, pow_succ]
    ring

theorem toNatBE_lt (bs : Bytes) : toNatBE bs < 256 ^ bs.length := by
  rw [toNatBE, ← List.length_reverse]
  exact toNat_lt _

theorem toNatBE_cons (b : UInt8) (bs : Bytes) :
    toNatBE (b :: bs) = b.toNat * 256 ^ bs.length + toNatBE bs := by
  rw [toNatBE, List.reverse_cons, toNat_append, List.length_reverse, toNat, toNat, toNatBE]
  ring

/-- Strings of one length are ordered as the numbers they stand for. -/
theorem lt_iff_toNatBE_lt (h : as.length = bs.length) : as < bs ↔ toNatBE as < toNatBE bs := by
  induction as generalizing bs with
  | nil =>
    obtain rfl := List.length_eq_zero_iff.mp h.symm
    simp
  | cons a as ih =>
    obtain _ | ⟨b, bs⟩ := bs
    · cases h
    have hlen : as.length = bs.length := Nat.succ.inj h
    have hlow := toNatBE_lt as
    have hlow' := toNatBE_lt bs
    rw [List.cons_lt_cons_iff, ih hlen, toNatBE_cons, toNatBE_cons, UInt8.lt_iff_toNat_lt,
      ← UInt8.toNat_inj, hlen] at *
    constructor
    · rintro (hlt | ⟨heq, hlt⟩)
      · have : (a.toNat + 1) * 256 ^ bs.length ≤ b.toNat * 256 ^ bs.length :=
          Nat.mul_le_mul_right _ hlt
        linarith [Nat.succ_mul a.toNat (256 ^ bs.length)]
      · rw [heq]
        omega
    · intro hlt
      rcases Nat.lt_trichotomy a.toNat b.toNat with hab | hab | hab
      · exact .inl hab
      · rw [hab] at hlt
        exact .inr ⟨hab, by omega⟩
      · have : (b.toNat + 1) * 256 ^ bs.length ≤ a.toNat * 256 ^ bs.length :=
          Nat.mul_le_mul_right _ hab
        linarith [Nat.succ_mul b.toNat (256 ^ bs.length)]

/-! ## Hexadecimal text -/

def hexDigit (n : Nat) : Char := if n < 10 then Char.ofNat (48 + n) else Char.ofNat (87 + n)

/-- The value of a lower-case hexadecimal digit. -/
def unhexDigit (c : Char) : Option Nat :=
  if 48 ≤ c.toNat ∧ c.toNat < 58 then some (c.toNat - 48)
  else if 97 ≤ c.toNat ∧ c.toNat < 103 then some (c.toNat - 87)
  else none

theorem unhexDigit_hexDigit (h : n < 16) : unhexDigit (hexDigit n) = some n := by
  interval_cases n <;> rfl

def hexChars : Bytes → List Char
  | [] => []
  | b :: bs => hexDigit (b.toNat / 16) :: hexDigit (b.toNat % 16) :: hexChars bs

def unhexChars : List Char → Option Bytes
  | [] => some []
  | [_] => none
  | a :: b :: rest => do
    let hi ← unhexDigit a
    let lo ← unhexDigit b
    let bs ← unhexChars rest
    pure (UInt8.ofNat (16 * hi + lo) :: bs)

/-- Lower-case hexadecimal, two digits a byte. -/
def hex (bs : Bytes) : String := String.ofList (hexChars bs)

def unhex (s : String) : Option Bytes := unhexChars s.toList

@[simp] theorem length_hexChars (bs : Bytes) : (hexChars bs).length = 2 * bs.length := by
  induction bs with
  | nil => rfl
  | cons b bs ih => simp only [hexChars, List.length_cons, ih]; omega

theorem unhexChars_hexChars (bs : Bytes) : unhexChars (hexChars bs) = some bs := by
  induction bs with
  | nil => rfl
  | cons b bs ih =>
    have hb : b.toNat < 256 := b.toNat_lt
    have hdiv : 16 * (b.toNat / 16) + b.toNat % 16 = b.toNat := by omega
    simp only [hexChars, unhexChars, ih, unhexDigit_hexDigit (show b.toNat / 16 < 16 by omega),
      unhexDigit_hexDigit (show b.toNat % 16 < 16 by omega), Option.bind_eq_bind,
      Option.bind_some, hdiv, UInt8.ofNat_toNat]
    rfl

@[simp] theorem toList_hex (bs : Bytes) : (hex bs).toList = hexChars bs := String.toList_ofList

@[simp] theorem unhex_hex (bs : Bytes) : unhex (hex bs) = some bs := by
  rw [unhex, toList_hex, unhexChars_hexChars]

theorem hex_inj (h : hex a = hex b) : a = b := by
  have := unhex_hex a
  rw [h, unhex_hex] at this
  exact (Option.some.inj this).symm

end Bytes

end Lib
