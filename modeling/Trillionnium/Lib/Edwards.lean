import Mathlib.Tactic.FieldSimp
import Mathlib.Tactic.LinearCombination
import Mathlib.Tactic.Ring

/-!
# Twisted Edwards curves

The points of `-x ^ 2 + y ^ 2 = 1 + d * x ^ 2 * y ^ 2` over a field in which `-1` is a square and
`d` is none. There the addition law has no exceptions when a point is doubled, the double is on the
curve again, and the formulas in projective coordinates compute it (`Represents.double`).
-/

namespace Lib.Edwards

variable {K : Type} [Field K]

def OnCurve (d : K) (p : K × K) : Prop := -p.1 ^ 2 + p.2 ^ 2 = 1 + d * p.1 ^ 2 * p.2 ^ 2

def add (d : K) (p q : K × K) : K × K :=
  ((p.1 * q.2 + q.1 * p.2) / (1 + d * p.1 * q.1 * p.2 * q.2),
    (p.2 * q.2 + p.1 * q.1) / (1 - d * p.1 * q.1 * p.2 * q.2))

def identity : K × K := (0, 1)

def double (d : K) (p : K × K) : K × K := add d p p

/-- What makes the addition law complete. -/
structure Complete (d : K) : Prop where
  square : IsSquare (-1 : K)
  nonsquare : ¬ IsSquare d

section
variable {d : K} {p : K × K}

/-- `d` times a square is neither one nor its negative. -/
theorem Complete.mul_sq_ne (h : Complete d) {t c : K} (hc : IsSquare c) (hc0 : c ≠ 0) :
    d * t ^ 2 ≠ c := by
  intro heq
  have ht : t ≠ 0 := by
    rintro rfl
    exact hc0 (by rw [← heq]; ring)
  obtain ⟨r, rfl⟩ := hc
  refine h.nonsquare ⟨r / t, ?_⟩
  field_simp
  linear_combination heq

theorem Complete.add_ne (h : Complete d) (x y : K) : 1 + d * x ^ 2 * y ^ 2 ≠ 0 := by
  intro heq
  refine h.mul_sq_ne (t := x * y) h.square (neg_ne_zero.mpr one_ne_zero) ?_
  linear_combination heq

theorem Complete.sub_ne (h : Complete d) (x y : K) : 1 - d * x ^ 2 * y ^ 2 ≠ 0 := by
  intro heq
  refine h.mul_sq_ne (t := x * y) (IsSquare.one) one_ne_zero ?_
  linear_combination -heq

/-- The factor of `x ^ 2` in the equation of the curve. -/
theorem Complete.coefficient_ne (h : Complete d) (y : K) : d * y ^ 2 + 1 ≠ 0 := by
  have hne := h.add_ne 1 y
  rwa [one_pow, mul_one, add_comm] at hne

theorem double_eq (hp : OnCurve d p) :
    double d p = (2 * p.1 * p.2 / (p.2 ^ 2 - p.1 ^ 2),
      (p.2 ^ 2 + p.1 ^ 2) / (2 - p.2 ^ 2 + p.1 ^ 2)) := by
  have hadd : 1 + d * p.1 * p.1 * p.2 * p.2 = p.2 ^ 2 - p.1 ^ 2 := by
    unfold OnCurve at hp
    linear_combination -hp
  have hsub : 1 - d * p.1 * p.1 * p.2 * p.2 = 2 - p.2 ^ 2 + p.1 ^ 2 := by
    unfold OnCurve at hp
    linear_combination hp
  rw [double, add, hadd, hsub]
  congr 2 <;> ring

theorem Complete.denominators_ne (h : Complete d) (hp : OnCurve d p) :
    p.2 ^ 2 - p.1 ^ 2 ≠ 0 ∧ 2 - p.2 ^ 2 + p.1 ^ 2 ≠ 0 := by
  have hadd : p.2 ^ 2 - p.1 ^ 2 = 1 + d * p.1 ^ 2 * p.2 ^ 2 := by
    unfold OnCurve at hp
    linear_combination hp
  have hsub : 2 - p.2 ^ 2 + p.1 ^ 2 = 1 - d * p.1 ^ 2 * p.2 ^ 2 := by
    unfold OnCurve at hp
    linear_combination -hp
  rw [hadd, hsub]
  exact ⟨h.add_ne _ _, h.sub_ne _ _⟩

theorem Complete.onCurve_double (h : Complete d) (hp : OnCurve d p) : OnCurve d (double d p) := by
  obtain ⟨hadd, hsub⟩ := h.denominators_ne hp
  rw [double_eq hp]
  unfold OnCurve at hp ⊢
  dsimp only
  field_simp
  linear_combination 4 * (p.2 ^ 2 + p.1 ^ 2) ^ 2 * hp

/-- Where the two signs of an abscissa are one. -/
theorem Complete.abscissa_eq_zero (h : Complete d) (hp : OnCurve d p) :
    p.1 = 0 ↔ p.2 = 1 ∨ p.2 = -1 := by
  have hsolved : (d * p.2 ^ 2 + 1) * p.1 ^ 2 = p.2 ^ 2 - 1 ^ 2 := by
    unfold OnCurve at hp
    linear_combination -hp
  rw [← sq_eq_sq_iff_eq_or_eq_neg, ← @sub_eq_zero K _ (p.2 ^ 2), ← hsolved, mul_eq_zero,
    or_iff_right (h.coefficient_ne p.2), sq_eq_zero_iff]

/-! ## Projective coordinates -/

/-- The coordinates stand for the affine point. -/
def Represents (c : K × K × K) (p : K × K) : Prop :=
  c.2.2 ≠ 0 ∧ c.1 = p.1 * c.2.2 ∧ c.2.1 = p.2 * c.2.2

def doubleProjective (c : K × K × K) : K × K × K :=
  let a := c.1 ^ 2
  let b := c.2.1 ^ 2
  let g := b - a
  let f := g - 2 * c.2.2 ^ 2
  (((c.1 + c.2.1) ^ 2 - a - b) * f, g * (-a - b), f * g)

theorem Represents.double (h : Complete d) (hp : OnCurve d p) {c : K × K × K}
    (hc : Represents c p) :
    Represents (doubleProjective c) (double d p) := by
  obtain ⟨hz, hx, hy⟩ := hc
  obtain ⟨hadd, hsub⟩ := h.denominators_ne hp
  rw [double_eq hp]
  simp only [doubleProjective, Represents, hx, hy]
  have hg : (p.2 * c.2.2) ^ 2 - (p.1 * c.2.2) ^ 2 = c.2.2 ^ 2 * (p.2 ^ 2 - p.1 ^ 2) := by ring
  have hf : (p.2 * c.2.2) ^ 2 - (p.1 * c.2.2) ^ 2 - 2 * c.2.2 ^ 2 =
    -(c.2.2 ^ 2 * (2 - p.2 ^ 2 + p.1 ^ 2)) := by ring
  rw [hf, hg]
  refine ⟨?_, ?_, ?_⟩
  · exact mul_ne_zero (neg_ne_zero.mpr (mul_ne_zero (pow_ne_zero 2 hz) hsub))
      (mul_ne_zero (pow_ne_zero 2 hz) hadd)
  · field_simp
    ring
  · field_simp
    ring

/-- The identity is told by its coordinates. -/
theorem Represents.eq_identity {c : K × K × K} (hc : Represents c p) :
    p = identity ↔ c.1 = 0 ∧ c.2.1 - c.2.2 = 0 := by
  obtain ⟨hz, hx, hy⟩ := hc
  rw [hx, hy, Prod.ext_iff, identity, mul_eq_zero, or_iff_left hz]
  refine and_congr_right fun _ => ?_
  rw [← sub_one_mul, mul_eq_zero, or_iff_left hz, sub_eq_zero]

end

end Lib.Edwards
