import Mathlib.NumberTheory.LucasPrimality

/-!
# Powers modulo a number

`powMod` squares and multiplies, so the kernel can evaluate it on large exponents. With it Lucas's
test proves a number prime from the prime factors of its predecessor (`prime_of_factors`).
-/

namespace Lib

/-- The power by the low bits of the exponent. -/
def powBits (m : Nat) : Nat → Nat → Nat → Nat
  | 0, _, _ => 1 % m
  | bits + 1, b, e =>
    if e % 2 = 1 then b * powBits m bits (b * b % m) (e / 2) % m
      else powBits m bits (b * b % m) (e / 2)

theorem powBits_eq {m bits b e : Nat} (h : e < 2 ^ bits) : powBits m bits b e = b ^ e % m := by
  induction bits generalizing b e with
  | zero =>
    obtain rfl : e = 0 := by omega
    rfl
  | succ bits ih =>
    have hhalf : powBits m bits (b * b % m) (e / 2) = b ^ (2 * (e / 2)) % m := by
      rw [ih (by rw [Nat.pow_succ] at h; omega), ← Nat.pow_mod, pow_mul, sq]
    rw [powBits, hhalf]
    split
    · next hodd =>
      rw [Nat.mul_mod_mod, ← pow_succ', show 2 * (e / 2) + 1 = e by omega]
    · next heven => rw [show 2 * (e / 2) = e by omega]

def powMod (m b e : Nat) : Nat := powBits m (e.log2 + 1) b e

theorem powMod_eq (m b e : Nat) : powMod m b e = b ^ e % m := powBits_eq Nat.lt_log2_self

theorem cast_powMod (m b e : Nat) : (powMod m b e : ZMod m) = (b : ZMod m) ^ e := by
  rw [powMod_eq, ZMod.natCast_mod, Nat.cast_pow]

theorem powMod_eq_one {m b e : Nat} (hm : 1 < m) : powMod m b e = 1 ↔ (b : ZMod m) ^ e = 1 := by
  have h := ZMod.natCast_eq_natCast_iff' (b ^ e) 1 m
  rw [Nat.cast_pow, Nat.cast_one, Nat.mod_eq_of_lt hm] at h
  rw [powMod_eq, h]

/-- Lucas's test with the factors of `p - 1`, each with its exponent. -/
theorem prime_of_factors {p a : Nat} {factors : List (Nat × Nat)}
    (hprime : factors.Forall fun f => f.1.Prime)
    (hcheck : 1 < p ∧ (factors.map fun f => f.1 ^ f.2).prod = p - 1 ∧ powMod p a (p - 1) = 1 ∧
      ∀ f ∈ factors, powMod p a ((p - 1) / f.1) ≠ 1) : p.Prime := by
  obtain ⟨hp, hprod, hone, hne⟩ := hcheck
  refine lucas_primality p a ((powMod_eq_one hp).mp hone) fun q hq hdvd hpow => ?_
  rw [← hprod] at hdvd
  obtain ⟨x, hx, hdvd⟩ := (Prime.dvd_prod_iff hq.prime).mp hdvd
  obtain ⟨f, hf, rfl⟩ := List.mem_map.mp hx
  obtain rfl := (Nat.prime_dvd_prime_iff_eq hq (List.forall_iff_forall_mem.mp hprime f hf)).mp
    (hq.dvd_of_dvd_pow hdvd)
  exact hne f hf ((powMod_eq_one hp).mpr hpow)

end Lib
