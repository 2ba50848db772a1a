import Mathlib.Algebra.GroupWithZero.Nat
import Mathlib.Data.List.Perm.Basic
import Mathlib.Data.List.Nodup

/-!
# Weighted quorums

Members of a committee carry weights. Any two sets of members share at least what their weights
together exceed the whole committee by (`two_quorums`), and a list of different members found by
their keys weighs as much as the members with these keys (`weight_found`).
-/

namespace Lib

variable {α K : Type}

/-- The weight of the members that satisfy `p`. -/
def weightOf (weight : α → Nat) (p : α → Bool) (members : List α) : Nat :=
  ((members.filter p).map weight).sum

variable {weight : α → Nat} {p q : α → Bool} {members : List α}

theorem two_quorums : weightOf weight p members + weightOf weight q members ≤
    weightOf weight (fun m => p m && q m) members + (members.map weight).sum := by
  induction members with
  | nil => simp [weightOf]
  | cons m members ih =>
    simp only [weightOf, List.filter_cons, List.map_cons, List.sum_cons] at ih ⊢
    cases p m <;> cases q m <;> simp only [Bool.and_true, Bool.and_false, Bool.false_eq_true,
      if_true, if_false, List.map_cons, List.sum_cons] <;> omega

/-- Members found one by one under different keys are the members with these keys. -/
theorem perm_found [DecidableEq K] {key : α → K} {ids : List K} {found : List α}
    (hkeys : (members.map key).Nodup) (hids : ids.Nodup)
    (h : List.Forall₂ (fun id m => members.find? (fun m => key m = id) = some m) ids found) :
    found.Perm (members.filter fun m => key m ∈ ids) := by
  have hmap : found.map key = ids := by
    induction h with
    | nil => rfl
    | @cons id m ids found hm _ ih =>
      have hkey : key m = id := by simpa using List.find?_some hm
      rw [List.map_cons, ih (List.nodup_cons.mp hids).2, hkey]
  have hmem : ∀ m ∈ found, m ∈ members := by
    clear hmap hids
    induction h with
    | nil => exact fun m hm => absurd hm List.not_mem_nil
    | cons hm _ ih =>
      exact List.forall_mem_cons.mpr ⟨List.mem_of_find?_eq_some hm, ih⟩
  have hfound : found.Nodup := .of_map key (hmap ▸ hids)
  refine (List.perm_ext_iff_of_nodup hfound ((List.Nodup.of_map key hkeys).filter _)).mpr fun m =>
    ?_
  rw [List.mem_filter, decide_eq_true_iff, ← hmap]
  constructor
  · exact fun hm => ⟨hmem m hm, List.mem_map_of_mem hm⟩
  · rintro ⟨hm, hkey⟩
    obtain ⟨m', hm', heq⟩ := List.mem_map.mp hkey
    obtain rfl := List.inj_on_of_nodup_map hkeys (hmem m' hm') hm heq
    exact hm'

theorem weight_found [DecidableEq K] (weight : α → Nat) {key : α → K} {ids : List K}
    {found : List α} (hkeys : (members.map key).Nodup) (hids : ids.Nodup)
    (h : List.Forall₂ (fun id m => members.find? (fun m => key m = id) = some m) ids found) :
    (found.map weight).sum = weightOf weight (fun m => key m ∈ ids) members :=
  ((perm_found hkeys hids h).map weight).sum_nat

end Lib
