import Mathlib.Data.Nat.Choose.Sum

/-!
# The sign test

How many of the `2 ^ n` outcomes of `n` fair trials have at least `w` wins. A result with more wins
and fewer losses is at least as significant, although the number of trials changes with it.
-/

namespace Lib.SignTest

/-- The outcomes of `n` trials with at least `w` wins. -/
def tail (n w : Nat) : Nat := ∑ k ∈ Finset.Ico w (n + 1), n.choose k

theorem tail_succ_succ (n w : Nat) : tail (n + 1) (w + 1) = tail n w + tail n (w + 1) := by
  have htop : ∑ k ∈ Finset.Ico (w + 1) (n + 2), n.choose k = tail n (w + 1) := by
    rcases Nat.lt_or_ge n w with hlt | hge
    · rw [tail, Finset.Ico_eq_empty (by omega), Finset.Ico_eq_empty (by omega)]
    · rw [tail, Finset.sum_Ico_succ_top (by omega), Nat.choose_succ_self, Nat.add_zero]
  rw [← htop, tail, tail, ← Finset.sum_Ico_add', ← Finset.sum_Ico_add', ← Finset.sum_add_distrib]
  exact Finset.sum_congr rfl fun k _ => Nat.choose_succ_succ n k

theorem tail_succ_le (n w : Nat) : tail n (w + 1) ≤ tail n w :=
  Finset.sum_le_sum_of_subset (Finset.Ico_subset_Ico_left (Nat.le_succ w))

theorem tail_zero (n : Nat) : tail n 0 = 2 ^ n := by
  rw [tail, ← Finset.range_eq_Ico, Nat.sum_range_choose]

theorem two_mul_tail_le (n w : Nat) : 2 * tail n w ≤ tail (n + 1) w := by
  cases w with
  | zero => rw [tail_zero, tail_zero, pow_succ']
  | succ w =>
    have hle := tail_succ_le n w
    rw [tail_succ_succ]
    omega

/-- At most one outcome in `c` has that many wins. -/
def Significant (c wins losses : Nat) : Prop := c * tail (wins + losses) wins ≤ 2 ^ (wins + losses)

section
variable {c wins losses : Nat}

theorem Significant.win (h : Significant c wins losses) : Significant c (wins + 1) losses := by
  have hle := tail_succ_le (wins + losses) wins
  unfold Significant at h ⊢
  rw [Nat.add_right_comm, tail_succ_succ, pow_succ]
  nlinarith

theorem Significant.not_lost (h : Significant c wins (losses + 1)) : Significant c wins losses := by
  have hle := Nat.mul_le_mul_left c (two_mul_tail_le (wins + losses) wins)
  unfold Significant at h ⊢
  rw [← Nat.add_assoc, pow_succ] at h
  nlinarith

theorem Significant.mono {wins' losses' : Nat} (hwins : wins ≤ wins') (hlosses : losses' ≤ losses)
    (h : Significant c wins losses) : Significant c wins' losses' := by
  induction hwins with
  | refl =>
    induction hlosses with
    | refl => exact h
    | step _ ih => exact ih h.not_lost
  | step _ ih => exact ih.win

end

end Lib.SignTest
