import Mathlib.NumberTheory.LegendreSymbol.Basic
import Mathlib.Tactic.NormNum.Prime
import Trillionnium.Lib.Edwards
import Trillionnium.Lib.Modular
import Trillionnium.Pon.Tagged

/-!
# Strict points

`strict_point` of `strict_signature.py` and `canonical_ed25519_point` of the native primitives. The
first recovers `x` by one power and at most one factor and doubles the point three times without
inversions, on integers; it accepts the encodings of the points of edwards25519 whose multiple by
eight is not the identity. The second only compares bytes.
-/

namespace Trillionnium.Pon.Ed25519

open Lib Lib.Edwards

abbrev P : Nat := 2 ^ 255 - 19

/-! ## `strict_signature.py` -/

/-- `pow(b, e, P)`. -/
def pow (b : Int) (e : Nat) : Int := powMod P (b % P).toNat e

def D : Int := -121665 * pow 121666 (P - 2) % P

def SQRT_M1 : Int := pow 2 ((P - 1) / 4)

abbrev signatureError : Raised := .valueError "SIGNATURE"

def candidate (u v : Int) : Int := u * pow v 3 * pow (u * pow v 7 % P) ((P - 5) / 8) % P

/-- A square root of `u / v`. -/
def root (u v : Int) : Except Raised Int :=
  let x := candidate u v
  if (v * x * x - u) % P ≠ 0 then
    if (v * x * x + u) % P ≠ 0 then .error signatureError else .ok (x * SQRT_M1 % P)
  else .ok x

/-- The abscissa for an ordinate and a sign. -/
def recover (sign : Nat) (y : Int) : Except Raised Int := do
  let yy := y * y % P
  let u := (yy - 1) % P
  let v := (D * yy + 1) % P
  let x ← root u v
  require (¬ (x = 0 ∧ sign ≠ 0)) signatureError
  return if x % 2 ≠ sign then P - x else x

/-- One round of the doubling loop on `(X, Y, Z)`. -/
def doubleStep (c : Int × Int × Int) : Int × Int × Int :=
  let (X, Y, Z) := c
  let A := X * X % P
  let B := Y * Y % P
  let C := 2 * Z * Z % P
  let negative := -A % P
  let E := ((X + Y) * (X + Y) - A - B) % P
  let G := (negative + B) % P
  let F := (G - C) % P
  let H := (negative - B) % P
  (E * F % P, G * H % P, F * G % P)

def strictPoint (encoded : Bytes) : Except Raised Unit := do
  require (encoded.length = 32) signatureError
  let number := Bytes.toNat encoded
  let sign := number / 2 ^ 255
  let y : Int := (number % 2 ^ 255 : Nat)
  require (y < P) signatureError
  let x ← recover sign y
  let c := doubleStep^[3] (x, y, 1)
  require (¬ (c.2.2 = 0 ∨ c.1 = 0 ∧ (c.2.1 - c.2.2) % P = 0)) signatureError

/-! ## The native check -/

/-- The bytes of `P`. -/
def primeBytes : Bytes := ((List.replicate 32 255).set 0 237).set 31 127

def canonicalEd25519Point (bytes : Hash) : Bool :=
  let last := bytes.bytes.getD 31 0
  let sign := last >>> 7
  let y := bytes.bytes.set 31 (last &&& 127)
  if ¬ y.reverse < primeBytes.reverse then false
  else
    let one := (List.replicate 32 0).set 0 1
    let minusOne := primeBytes.set 0 (primeBytes.getD 0 0 - 1)
    ¬ (sign = 1 ∧ (y = one ∨ y = minusOne))

/-! ## The field -/

/-- Lucas's certificates, from the factors of `P - 1` down to primes that are tried. -/
theorem prime_P : Nat.Prime P := by
  have h₁ : Nat.Prime 2773320623 :=
    @prime_of_factors _ 5 [(2, 1), (2437, 1), (569003, 1)] ⟨by norm_num, by norm_num, by norm_num⟩
      (by decide)
  have h₂ : Nat.Prime 72106336199 :=
    @prime_of_factors _ 7 [(2, 1), (13, 1), (2773320623, 1)] ⟨by norm_num, by norm_num, h₁⟩
      (by decide)
  have h₃ : Nat.Prime 31757755568855353 :=
    @prime_of_factors _ 10 [(2, 3), (3, 1), (31, 1), (107, 1), (223, 1), (4153, 1), (430751, 1)]
      ⟨by norm_num, by norm_num, by norm_num, by norm_num, by norm_num, by norm_num, by norm_num⟩
      (by decide)
  have h₄ : Nat.Prime 1919519569386763 :=
    @prime_of_factors _ 2 [(2, 1), (3, 1), (7, 1), (19, 1), (47, 2), (127, 1), (8574133, 1)]
      ⟨by norm_num, by norm_num, by norm_num, by norm_num, by norm_num, by norm_num, by norm_num⟩
      (by decide)
  have h₅ : Nat.Prime 75445702479781427272750846543864801 :=
    @prime_of_factors _ 7 [(2, 5), (3, 2), (5, 2), (75707, 1), (72106336199, 1),
      (1919519569386763, 1)]
      ⟨by norm_num, by norm_num, by norm_num, by norm_num, h₂, h₄⟩ (by decide +kernel)
  have h₆ : Nat.Prime 74058212732561358302231226437062788676166966415465897661863160754340907 :=
    @prime_of_factors _ 2
      [(2, 1), (3, 1), (353, 1), (57467, 1), (132049, 1), (1923133, 1), (31757755568855353, 1),
        (75445702479781427272750846543864801, 1)]
      ⟨by norm_num, by norm_num, by norm_num, by norm_num, by norm_num, by norm_num, h₃, h₅⟩
        (by decide +kernel)
  exact @prime_of_factors _ 2
    [(2, 2), (3, 1), (65147, 1),
      (74058212732561358302231226437062788676166966415465897661863160754340907, 1)]
    ⟨by norm_num, by norm_num, by norm_num, h₆⟩ (by decide +kernel)

instance : Fact P.Prime := ⟨prime_P⟩

abbrev F := ZMod P

theorem cast_emod (n : Int) : ((n % P : Int) : F) = n := ZMod.intCast_mod n P

theorem cast_toNat_emod (n : Int) : ((n % P).toNat : F) = n := by
  rw [← Int.cast_natCast, Int.toNat_of_nonneg (Int.emod_nonneg n (by decide)), cast_emod]

theorem cast_pow (b : Int) (e : Nat) : (pow b e : F) = (b : F) ^ e := by
  rw [pow, Int.cast_natCast, cast_powMod, cast_toNat_emod]

theorem emod_eq_zero_iff {n : Int} : n % P = 0 ↔ (n : F) = 0 := by
  rw [ZMod.intCast_zmod_eq_zero_iff_dvd, Int.dvd_iff_emod_eq_zero]

/-- Integers below the modulus are told apart in the field. -/
theorem cast_inj {m n : Int} (hm : 0 ≤ m ∧ m < P) (hn : 0 ≤ n ∧ n < P) (h : (m : F) = n) :
    m = n := by
  have h := (ZMod.intCast_eq_intCast_iff' m n P).mp h
  rwa [Int.emod_eq_of_lt hm.1 hm.2, Int.emod_eq_of_lt hn.1 hn.2] at h

theorem emod_mem (n : Int) : 0 ≤ n % P ∧ n % P < P :=
  ⟨Int.emod_nonneg n (by decide), Int.emod_lt_of_pos n (by decide)⟩

/-- The coefficient of edwards25519. -/
def d : F := -121665 / 121666

/-- What `D` and `SQRT_M1` are, and that `D` is no square by Euler's criterion. -/
theorem constants :
    (D * 121666 + 121665) % P = 0 ∧ pow 2 ((P - 1) / 4 * 2) = P - 1 ∧ pow D (P / 2) = P - 1 := by
  decide +kernel

theorem cast_D : (D : F) = d := by
  have hproduct := emod_eq_zero_iff.mp constants.1
  have hne : ((121666 : Int) : F) ≠ 0 := emod_eq_zero_iff.not.mp (by decide)
  push_cast at hproduct hne
  rw [d, eq_div_iff hne]
  linear_combination hproduct

theorem cast_minus_one : ((P - 1 : Int) : F) = -1 := by
  rw [Int.cast_sub, Int.cast_natCast, ZMod.natCast_self, zero_sub, Int.cast_one]

theorem one_ne_minus_one : (1 : F) ≠ -1 := by
  intro h
  rw [← cast_minus_one, ← Int.cast_one] at h
  exact absurd (cast_inj ⟨by decide, by decide⟩ ⟨by decide, by decide⟩ h) (by decide)

theorem sqrt_minus_one : (SQRT_M1 : F) ^ 2 = -1 := by
  rw [SQRT_M1, cast_pow, ← pow_mul, ← cast_pow, constants.2.1, cast_minus_one]

/-- `-1` is a square and `D` is none. -/
theorem complete : Complete d := by
  have heuler : d ^ (P / 2) = -1 := by rw [← cast_D, ← cast_pow, constants.2.2, cast_minus_one]
  have hne : d ≠ 0 := by
    intro hzero
    rw [hzero, zero_pow (by decide)] at heuler
    exact neg_ne_zero.mpr one_ne_zero heuler.symm
  refine ⟨⟨(SQRT_M1 : F), by rw [← sq, sqrt_minus_one]⟩, fun hsquare => ?_⟩
  exact one_ne_minus_one (((ZMod.euler_criterion P hne).mp hsquare).symm.trans heuler)

/-! ## Recovering the abscissa -/

section
variable {u v : Int}

/-- The candidate solves the equation up to a factor, which is a power of a root of `u * v ^ 7`. -/
theorem candidate_sq (hs : (u : F) * (v : F) ^ 7 = s ^ 2) :
    (v : F) * (candidate u v : F) ^ 2 = u * s ^ (P / 2) := by
  have hexponent : 2 * (2 * ((P - 5) / 8) + 1) = P / 2 := by norm_num
  have hcandidate : (candidate u v : F) = u * (v : F) ^ 3 * (s ^ 2) ^ ((P - 5) / 8) := by
    rw [candidate, cast_emod, Int.cast_mul, Int.cast_mul, cast_pow, cast_pow, cast_emod,
      Int.cast_mul, cast_pow, hs]
  have hpower (k : Nat) : s ^ (2 * (2 * k + 1)) = s ^ 2 * ((s ^ 2) ^ k) ^ 2 := by ring
  rw [hcandidate, ← hexponent, hpower]
  linear_combination (u : F) * ((s ^ 2) ^ ((P - 5) / 8)) ^ 2 * hs

theorem root_sound {x : Int} (h : root u v = .ok x) :
    (0 ≤ x ∧ x < P) ∧ (v : F) * (x : F) ^ 2 = u := by
  simp only [root] at h
  split at h
  · split at h
    · cases h
    · next hminus =>
      obtain rfl := Except.ok.inj h
      have hminus := emod_eq_zero_iff.mp (not_not.mp hminus)
      refine ⟨emod_mem _, ?_⟩
      push_cast at hminus
      rw [cast_emod, Int.cast_mul, mul_pow, sqrt_minus_one]
      linear_combination -hminus
  · next hplus =>
    obtain rfl := Except.ok.inj h
    have hplus := emod_eq_zero_iff.mp (not_not.mp hplus)
    refine ⟨emod_mem _, ?_⟩
    push_cast at hplus
    linear_combination hplus

theorem root_complete {x : F} (h : (v : F) * x ^ 2 = u) : ∃ r, root u v = .ok r := by
  have hsquare : (u : F) * (v : F) ^ 7 = (x * (v : F) ^ 4) ^ 2 := by
    rw [← h]
    ring
  have hcandidate := candidate_sq hsquare
  -- the factor is a sign, unless everything vanishes
  have hsign : (v : F) * (candidate u v : F) ^ 2 = u ∨ (v : F) * (candidate u v : F) ^ 2 = -u := by
    by_cases hzero : x * (v : F) ^ 4 = 0
    · have hu : (u : F) = 0 := by
        rcases mul_eq_zero.mp hzero with hx | hv
        · rw [← h, hx, zero_pow two_ne_zero, mul_zero]
        · rw [← h, pow_eq_zero_iff (by decide) |>.mp hv, zero_mul]
      rw [hu, zero_mul] at hcandidate
      exact .inl (hcandidate.trans hu.symm)
    · rcases ZMod.pow_div_two_eq_neg_one_or_one P hzero with hone | hminus
      · exact .inl (by rw [hcandidate, hone, mul_one])
      · exact .inr (by rw [hcandidate, hminus, mul_neg_one])
  simp only [root]
  split
  · next hplus =>
    have hplus := emod_eq_zero_iff.not.mp hplus
    push_cast at hplus
    have hminus : ((v * candidate u v * candidate u v + u : Int) : F) = 0 := by
      push_cast
      rcases hsign with heq | heq
      · exact absurd (by linear_combination heq) hplus
      · linear_combination heq
    rw [if_neg (not_not.mpr (emod_eq_zero_iff.mpr hminus))]
    exact ⟨_, rfl⟩
  · exact ⟨_, rfl⟩

end

/-- The equation of the curve, solved for the square of the abscissa. -/
theorem onCurve_iff : OnCurve d (x, y) ↔ (d * y ^ 2 + 1) * x ^ 2 = y ^ 2 - 1 := by
  unfold OnCurve
  constructor <;> intro h <;> linear_combination -h

theorem cast_coefficients (y : Int) : (((y * y % P - 1) % P : Int) : F) = (y : F) ^ 2 - 1 ∧
      (((D * (y * y % P) + 1) % P : Int) : F) = d * (y : F) ^ 2 + 1 := by
  simp only [cast_emod, Int.cast_sub, Int.cast_add, Int.cast_mul, Int.cast_one, cast_D]
  exact ⟨by ring, by ring⟩

/-- The abscissa is the one of its sign on the curve. -/
theorem recover_eq_ok (hsign : sign < 2) :
    recover sign y = .ok x ↔ (0 ≤ x ∧ x < P) ∧ OnCurve d ((x : F), (y : F)) ∧ x % 2 = sign := by
  have hodd : (P : Int) % 2 = 1 := by norm_num
  have hflip (r : Int) : ((P - r : Int) : F) = -r := by
    rw [Int.cast_sub, Int.cast_natCast, ZMod.natCast_self, zero_sub]
  have hne := complete.coefficient_ne (y : F)
  obtain ⟨hu, hv⟩ := cast_coefficients y
  simp only [recover, bind_eq_ok, require_eq_ok, pure_eq_ok, onCurve_iff]
  generalize (y * y % P - 1) % P = u at hu
  generalize (D * (y * y % P) + 1) % P = v at hv
  rw [← hv] at hne
  rw [← hu, ← hv]
  constructor
  · rintro ⟨r, hroot, _, hzero, rfl⟩
    obtain ⟨hr, hsq⟩ := root_sound hroot
    generalize (P : Int) = p at *
    split
    · next hparity =>
      refine ⟨by omega, ?_, by omega⟩
      rw [hflip, neg_sq, hsq]
    · next hparity => exact ⟨hr, hsq, not_not.mp hparity⟩
  · rintro ⟨hx, hcurve, hparity⟩
    obtain ⟨r, hroot⟩ := root_complete hcurve
    obtain ⟨hr, hsq⟩ := root_sound hroot
    have hsquares : (r : F) ^ 2 = (x : F) ^ 2 := mul_left_cancel₀ hne (hsq.trans hcurve.symm)
    -- the root is the abscissa or its negative
    have hroots : r = x ∨ r = P - x ∧ x ≠ 0 := by
      by_cases hzero : x = 0
      · rw [hzero, Int.cast_zero, zero_pow two_ne_zero, sq_eq_zero_iff, ← Int.cast_zero] at hsquares
        exact .inl ((cast_inj hr ⟨le_rfl, by decide⟩ hsquares).trans hzero.symm)
      · rcases sq_eq_sq_iff_eq_or_eq_neg.mp hsquares with heq | heq
        · exact .inl (cast_inj hr hx heq)
        · exact .inr ⟨cast_inj hr (by omega) (heq.trans (hflip x).symm), hzero⟩
    refine ⟨r, hroot, (), ?_⟩
    generalize (P : Int) = p at *
    split <;> omega

/-! ## Doubling -/

/-- The coordinates in the field. -/
def castTriple (c : Int × Int × Int) : F × F × F := (c.1, c.2.1, c.2.2)

theorem castTriple_doubleStep (c : Int × Int × Int) :
    castTriple (doubleStep c) = doubleProjective (castTriple c) := by
  simp only [castTriple, doubleStep, doubleProjective, cast_emod, Int.cast_mul, Int.cast_add,
    Int.cast_sub, Int.cast_neg, Int.cast_ofNat]
  congr 2 <;> ring

/-- Every round doubles the point. -/
theorem represents_iterate (hq : OnCurve d q) (hc : Represents (castTriple c) q) (n : Nat) :
    OnCurve d ((double d)^[n] q) ∧
    Represents (castTriple (doubleStep^[n] c)) ((double d)^[n] q) := by
  induction n with
  | zero => exact ⟨hq, hc⟩
  | succ n ih =>
    rw [Function.iterate_succ_apply', Function.iterate_succ_apply', castTriple_doubleStep]
    exact ⟨complete.onCurve_double ih.1, ih.2.double complete ih.1⟩

/-- The coordinates a round leaves are reduced. -/
theorem doubleStep_eq_zero (c : Int × Int × Int) :
    ((doubleStep c).1 = 0 ↔ (castTriple (doubleStep c)).1 = 0) ∧
      ((doubleStep c).2.2 = 0 ↔ (castTriple (doubleStep c)).2.2 = 0) := by
  have hreduced : (doubleStep c).1 % P = (doubleStep c).1 ∧
      (doubleStep c).2.2 % P = (doubleStep c).2.2 :=
    ⟨Int.emod_emod_of_dvd _ dvd_rfl, Int.emod_emod_of_dvd _ dvd_rfl⟩
  rw [← hreduced.1, ← hreduced.2, emod_eq_zero_iff, emod_eq_zero_iff]
  exact ⟨Iff.rfl, Iff.rfl⟩

/-- The last check of `strictPoint`. -/
theorem small_order_iff {x y : Int} (hcurve : OnCurve d ((x : F), (y : F))) :
    (let c := doubleStep^[3] (x, y, 1); c.2.2 = 0 ∨ c.1 = 0 ∧ (c.2.1 - c.2.2) % P = 0) ↔
      (double d)^[3] ((x : F), (y : F)) = identity := by
  have hstart : Represents (castTriple (x, y, 1)) ((x : F), (y : F)) := by
    simp [castTriple, Represents]
  obtain ⟨-, hrepresents⟩ := represents_iterate hcurve hstart 3
  rw [hrepresents.eq_identity]
  rw [Function.iterate_succ_apply'] at hrepresents ⊢
  generalize doubleStep^[2] (x, y, 1) = c at hrepresents ⊢
  dsimp only
  rw [(doubleStep_eq_zero c).1, (doubleStep_eq_zero c).2, or_iff_right hrepresents.1,
    emod_eq_zero_iff, Int.cast_sub]
  rfl

/-! ## Encodings -/

/-- The encoding of a point: the ordinate, and the lowest bit of the abscissa above it. -/
def encode (q : F × F) : Bytes := Bytes.ofNat 32 (q.2.val + 2 ^ 255 * (q.1.val % 2))

theorem eq_encode_iff (hlength : b.length = 32) :
    b = encode q ↔ Bytes.toNat b % 2 ^ 255 = q.2.val ∧ Bytes.toNat b / 2 ^ 255 = q.1.val % 2 := by
  have hy : q.2.val < 2 ^ 255 - 19 := q.2.val_lt
  constructor
  · rintro rfl
    rw [encode, Bytes.toNat_ofNat (by norm_num; omega)]
    omega
  · rintro ⟨hordinate, hsign⟩
    rw [encode, ← hordinate, ← hsign, Nat.mod_add_div, ← hlength, Bytes.ofNat_toNat]

theorem cast_val (a : F) : ((a.val : Int) : F) = a := by
  rw [Int.cast_natCast, ZMod.natCast_zmod_val]

/-- The residue of a reduced integer. -/
theorem val_cast {n : Int} (h : 0 ≤ n ∧ n < P) : ((n : F).val : Int) = n :=
  cast_inj ⟨Int.natCast_nonneg _, by exact_mod_cast (n : F).val_lt⟩ h (cast_val _)

theorem strictPoint_eq_ok {b : Bytes} :
    strictPoint b = .ok () ↔ ∃ q : F × F,
    OnCurve d q ∧ (double d)^[3] q ≠ identity ∧ b = encode q := by
  simp only [strictPoint, bind_eq_ok, require_eq_ok]
  constructor
  · rintro ⟨_, hlength, _, hy, x, hrecover, horder⟩
    have hsign : Bytes.toNat b / 2 ^ 255 < 2 := by
      have hbound := Bytes.toNat_lt b
      rw [hlength] at hbound
      omega
    obtain ⟨hx, hcurve, hparity⟩ := (recover_eq_ok hsign).mp hrecover
    have hbig := mt (small_order_iff hcurve).mpr horder
    refine ⟨_, hcurve, hbig, (eq_encode_iff hlength).mpr ⟨?_, ?_⟩⟩
    · exact_mod_cast (val_cast ⟨Int.natCast_nonneg _, hy⟩).symm
    · have hval := val_cast hx
      dsimp only
      omega
  · rintro ⟨q, hcurve, horder, rfl⟩
    have hlength : (encode q).length = 32 := Bytes.length_ofNat _ _
    obtain ⟨hordinate, hsign⟩ := (eq_encode_iff hlength).mp rfl
    have hcast : (((q.1.val : Int) : F), ((q.2.val : Int) : F)) = q := by rw [cast_val, cast_val]
    rw [hordinate, hsign]
    refine ⟨(), hlength, (), by exact_mod_cast q.2.val_lt, q.1.val, ?_, ?_⟩
    · rw [recover_eq_ok (Nat.mod_lt _ two_pos), hcast]
      exact ⟨⟨Int.natCast_nonneg _, by exact_mod_cast q.1.val_lt⟩, hcurve, rfl⟩
    · rw [small_order_iff (hcast.symm ▸ hcurve), hcast]
      exact horder

/-! ## The native comparison -/

theorem toNat_inj (hlength : a.length = b.length) : Bytes.toNat a = Bytes.toNat b ↔ a = b := by
  refine ⟨fun h => ?_, congrArg _⟩
  rw [← Bytes.ofNat_toNat a, ← Bytes.ofNat_toNat b, h, hlength]

/-- The last byte holds the sign above the highest bits of the ordinate. -/
theorem native_parts (b : Hash) :
    ((b.bytes.getD 31 0 >>> 7 = 1) ↔ Bytes.toNat b.bytes / 2 ^ 255 = 1) ∧
      Bytes.toNat (b.bytes.set 31 (b.bytes.getD 31 0 &&& 127)) = Bytes.toNat b.bytes % 2 ^ 255 := by
  obtain ⟨bytes, hsize⟩ := b
  rcases List.eq_nil_or_concat' bytes with rfl | ⟨low, last, rfl⟩
  · cases hsize
  have hlow : low.length = 31 := by simpa using hsize
  have hget : (low ++ [last]).getD 31 0 = last := by simp [List.getD_eq_getElem?_getD, ← hlow]
  have hset : (low ++ [last]).set 31 (last &&& 127) = low ++ [last &&& 127] := by simp [hlow]
  have hmask : (last &&& 127).toNat = last.toNat % 128 := by
    rw [UInt8.toNat_and]
    exact Nat.and_two_pow_sub_one_eq_mod last.toNat 7
  have hshift : (last >>> 7).toNat = last.toNat / 128 := by
    rw [UInt8.toNat_shiftRight]
    exact Nat.shiftRight_eq_div_pow last.toNat 7
  have hbound := Bytes.toNat_lt low
  have hsingle (c : UInt8) : Bytes.toNat [c] = c.toNat := rfl
  dsimp only
  rw [hget, hset, ← UInt8.toNat_inj, hshift, UInt8.toNat_one, Bytes.toNat_append,
    Bytes.toNat_append, hsingle, hsingle, hmask]
  rw [hlow] at hbound ⊢
  omega

theorem canonicalEd25519Point_iff : canonicalEd25519Point b ↔ Bytes.toNat b.bytes % 2 ^ 255 < P ∧
        ¬ (Bytes.toNat b.bytes / 2 ^ 255 = 1 ∧
          (Bytes.toNat b.bytes % 2 ^ 255 = 1 ∨ Bytes.toNat b.bytes % 2 ^ 255 = P - 1)) := by
  obtain ⟨hsign, hy⟩ := native_parts b
  have hsize : (b.bytes.set 31 (b.bytes.getD 31 0 &&& 127)).length = 32 :=
    List.length_set.trans b.size_eq
  simp only [canonicalEd25519Point]
  generalize b.bytes.set 31 (b.bytes.getD 31 0 &&& 127) = y at hy hsize ⊢
  have hprime : Bytes.toNat primeBytes = P := rfl
  have hone : Bytes.toNat y = 1 ↔ y = (List.replicate 32 0).set 0 1 := by
    rw [← toNat_inj hsize]
    exact Iff.rfl
  have hminus : Bytes.toNat y = P - 1 ↔ y = primeBytes.set 0 (primeBytes.getD 0 0 - 1) := by
    rw [← toNat_inj hsize]
    exact Iff.rfl
  have hlt : y.reverse < primeBytes.reverse ↔ Bytes.toNat y < P := by
    rw [Bytes.lt_iff_toNatBE_lt (by rw [List.length_reverse, hsize]; rfl), Bytes.toNatBE,
      Bytes.toNatBE, List.reverse_reverse, List.reverse_reverse, hprime]
  rw [← hy, ← hsign, ← hlt, hone, hminus]
  split
  · next hge => exact ⟨fun h => absurd h Bool.false_ne_true, fun h => absurd h.1 hge⟩
  · next hcanonical => rw [decide_eq_true_iff, and_iff_right (not_not.mp hcanonical)]

/-- The ordinate, taken modulo the prime, and the sign are those of a point. Zero has either
sign. -/
def Decodes (b : Hash) (q : F × F) : Prop :=
  OnCurve d q ∧ q.2 = ((Bytes.toNat b.bytes % 2 ^ 255 : Nat) : F) ∧
    (q.1.val % 2 = Bytes.toNat b.bytes / 2 ^ 255 ∨ q.1 = 0)

theorem decodes_of_eq_encode (hcurve : OnCurve d q) (h : b.bytes = encode q) : Decodes b q := by
  obtain ⟨hordinate, hsign⟩ := (eq_encode_iff b.size_eq).mp h
  exact ⟨hcurve, by rw [hordinate, ZMod.natCast_zmod_val], .inl hsign.symm⟩

theorem canonical_iff_eq_encode (h : Decodes b q) :
    canonicalEd25519Point b ↔ b.bytes = encode q := by
  obtain ⟨hcurve, hordinate, hsign⟩ := h
  have hbit : Bytes.toNat b.bytes / 2 ^ 255 < 2 := by
    have hbound := Bytes.toNat_lt b.bytes
    rw [b.size_eq] at hbound
    omega
  rw [canonicalEd25519Point_iff, eq_encode_iff b.size_eq]
  generalize Bytes.toNat b.bytes % 2 ^ 255 = y at hordinate ⊢
  generalize Bytes.toNat b.bytes / 2 ^ 255 = sign at hsign hbit ⊢
  have hcast (n : Int) (hn : 0 ≤ n ∧ n < P) (hy : y < P) : (y : F) = n ↔ y = n :=
    ⟨fun h => cast_inj ⟨Int.natCast_nonneg y, by omega⟩ hn (by rwa [Int.cast_natCast]),
      fun h => by rw [← h, Int.cast_natCast]⟩
  have hzero (hy : y < P) : (y = 1 ∨ y = P - 1) ↔ q.1 = 0 := by
    rw [complete.abscissa_eq_zero hcurve, hordinate, ← cast_minus_one, ← Int.cast_one,
      hcast 1 (by decide) hy, hcast (P - 1) (by decide) hy]
    have hprime : 1 ≤ P := by decide
    omega
  constructor
  · rintro ⟨hy, hnegative⟩
    refine ⟨by rw [hordinate, ZMod.val_cast_of_lt hy], ?_⟩
    rcases hsign with heq | heq
    · exact heq.symm
    · have hpositive : sign ≠ 1 := fun hone => hnegative ⟨hone, (hzero hy).mpr heq⟩
      rw [heq, ZMod.val_zero]
      omega
  · rintro ⟨rfl, rfl⟩
    have hy := q.2.val_lt
    refine ⟨hy, fun hnegative => ?_⟩
    have hone := hnegative.1
    rw [(hzero hy).mp hnegative.2, ZMod.val_zero] at hone
    cases hone

/-- `strictPoint` accepts exactly the encodings of the points of edwards25519 whose multiple by
eight is not the identity. What it accepts passes the native comparison, which tells the encoding of
a point from the other strings that decode to it. -/
theorem strict_points_exact (b : Hash) :
    (strictPoint b.bytes = .ok () ↔
      ∃ q : F × F, OnCurve d q ∧ (double d)^[3] q ≠ identity ∧ b.bytes = encode q) ∧
      (strictPoint b.bytes = .ok () → canonicalEd25519Point b) ∧
      ∀ q, Decodes b q → (canonicalEd25519Point b ↔ b.bytes = encode q) := by
  refine ⟨strictPoint_eq_ok, fun h => ?_, fun q => canonical_iff_eq_encode⟩
  obtain ⟨q, hcurve, -, hencode⟩ := strictPoint_eq_ok.mp h
  exact (canonical_iff_eq_encode (decodes_of_eq_encode hcurve hencode)).mpr hencode

def basePoint : Hash := ⟨0x58 :: List.replicate 31 0x66, rfl⟩

theorem basePoint_strict :
    strictPoint basePoint.bytes = .ok () ∧ canonicalEd25519Point basePoint := by
  have haccepted : strictPoint basePoint.bytes = .ok () := by decide +kernel
  exact ⟨haccepted, (strict_points_exact basePoint).2.1 haccepted⟩

end Trillionnium.Pon.Ed25519
