import Trillionnium.Lib.OrdMap

/-!
# Versioned objects

A map of objects that carry a version, and what it holds after some keys were written, each write
raising the version. Reads are validated by comparing versions: an object whose version is the
parent's was not written (`Tracks.version_ne_iff`) and is the parent's object (`Tracks.same`).
-/

namespace Lib

variable {K V : Type} [LinearOrder K] {version : V → Nat} {parent state state' : OrdMap K V}
  {written wrote : K → Bool} {k : K} {old new : V}

/-- The state differs from the parent at the written keys only, where its versions are higher. -/
structure Tracks (version : V → Nat) (parent : OrdMap K V) (written : K → Bool)
    (state : OrdMap K V) : Prop where
  same : ∀ k, written k = false → state.get k = parent.get k
  newer : ∀ k, written k = true → ∃ old new,
    parent.get k = some old ∧ state.get k = some new ∧ version old < version new

/-- One step: the keys it wrote have a higher version, the others are unchanged. -/
def Wrote (version : V → Nat) (state : OrdMap K V) (wrote : K → Bool) (state' : OrdMap K V) :
    Prop :=
  ∀ k, if wrote k then
      ∃ old new, state.get k = some old ∧ state'.get k = some new ∧ version old < version new
    else state'.get k = state.get k

theorem Tracks.refl : Tracks version parent (fun _ => false) parent where
  same _ _ := rfl
  newer _ h := nomatch h

variable (h : Tracks version parent written state)
include h

theorem Tracks.step (hstep : Wrote version state wrote state') :
    Tracks version parent (fun k => written k || wrote k) state' where
  same k hk := by
    rw [Bool.or_eq_false_iff] at hk
    have hget := hstep k
    rw [hk.2, if_neg Bool.false_ne_true] at hget
    rw [hget, h.same k hk.1]
  newer k hk := by
    have hget := hstep k
    cases hw : wrote k with
    | false =>
      rw [hw, if_neg Bool.false_ne_true] at hget
      rw [hw, Bool.or_false] at hk
      rw [hget]
      exact h.newer k hk
    | true =>
      rw [hw, if_pos rfl] at hget
      obtain ⟨cur, new, hcur, hnew, hlt⟩ := hget
      cases hd : written k with
      | false => exact ⟨cur, new, (h.same k hd).symm.trans hcur, hnew, hlt⟩
      | true =>
        obtain ⟨old, mid, hold, hmid, hlt'⟩ := h.newer k hd
        cases hcur.symm.trans hmid
        exact ⟨old, new, hold, hnew, hlt'.trans hlt⟩

theorem Tracks.version_ne_iff (hold : parent.get k = some old) (hnew : state.get k = some new) :
    version new ≠ version old ↔ written k = true := by
  cases hw : written k with
  | false =>
    cases hold.symm.trans ((h.same k hw).symm.trans hnew)
    simp
  | true =>
    obtain ⟨old', new', hold', hnew', hlt⟩ := h.newer k hw
    cases hold.symm.trans hold'
    cases hnew.symm.trans hnew'
    simpa using hlt.ne'

/-- The same objects exist. -/
theorem Tracks.none_iff : parent.get k = none ↔ state.get k = none := by
  cases hw : written k with
  | false => rw [h.same k hw]
  | true =>
    obtain ⟨old, new, hold, hnew, -⟩ := h.newer k hw
    simp [hold, hnew]

theorem Tracks.exists_new (hold : parent.get k = some old) : ∃ new, state.get k = some new :=
  Option.ne_none_iff_exists'.mp (h.none_iff.not.mp (by simp [hold]))

end Lib
