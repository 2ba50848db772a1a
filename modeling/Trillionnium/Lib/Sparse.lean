import Mathlib.Tactic.Linarith
import Trillionnium.Lib.OrdMap

/-!
# Sparse binary trees

A tree of fixed height over the indices of some leaves, where absent leaves have one filler. The
subtree of height `n` at `j` is above the indices `i` with `i / 2 ^ n = j`. A subtree without leaves
is `blank`, so a level is known from its nodes above leaves (`Level`), and the level above it from
those (`Level.up`). Where the pairing and the filler are told apart, a subtree determines the leaves
below it (`subtree_inj`).
-/

namespace Lib.Sparse

variable {H : Type} (node : H → H → H) (filler : H)

/-- The subtree without leaves. -/
def blank : Nat → H
  | 0 => filler
  | n + 1 => node (blank n) (blank n)

def subtree (leaf : Nat → Option H) : Nat → Nat → H
  | 0, j => (leaf j).getD filler
  | n + 1, j => node (subtree leaf n (2 * j)) (subtree leaf n (2 * j + 1))

def subtreePairs (leaf : Nat → Option H) : Nat → Nat → Set (H × H)
  | 0, _ => ∅
  | n + 1, j => insert (subtree node filler leaf n (2 * j), subtree node filler leaf n (2 * j + 1))
      (subtreePairs leaf n (2 * j) ∪ subtreePairs leaf n (2 * j + 1))

variable {leaf leaf' : Nat → Option H} {n j : Nat}

theorem div_succ_eq {i : Nat} (h : i / 2 ^ n = 2 * j ∨ i / 2 ^ n = 2 * j + 1) :
    i / 2 ^ (n + 1) = j := by
  rw [pow_succ, ← Nat.div_div_eq_div_mul]
  omega

section Congr
variable (h : ∀ i, i / 2 ^ n = j → leaf i = leaf' i)
include h

theorem subtree_congr : subtree node filler leaf n j = subtree node filler leaf' n j := by
  induction n generalizing j with
  | zero => rw [subtree, subtree, h j (by simp)]
  | succ n ih =>
    rw [subtree, subtree, ih fun i hi => h i (div_succ_eq (.inl hi)),
      ih fun i hi => h i (div_succ_eq (.inr hi))]

theorem subtreePairs_congr :
    subtreePairs node filler leaf n j = subtreePairs node filler leaf' n j := by
  induction n generalizing j with
  | zero => rfl
  | succ n ih =>
    have hleft := fun i hi => h i (div_succ_eq (.inl hi))
    have hright := fun i hi => h i (div_succ_eq (.inr hi))
    rw [subtreePairs, subtreePairs, ih hleft, ih hright, subtree_congr node filler hleft,
      subtree_congr node filler hright]

end Congr

theorem subtree_eq_blank (h : ∀ i, i / 2 ^ n = j → leaf i = none) :
    subtree node filler leaf n j = blank node filler n := by
  induction n generalizing j with
  | zero => rw [subtree, h j (by simp), blank, Option.getD_none]
  | succ n ih =>
    rw [subtree, ih fun i hi => h i (div_succ_eq (.inl hi)), ih fun i hi =>
      h i (div_succ_eq (.inr hi)), blank]

/-- In a subtree without leaves equal subtrees are paired. -/
theorem blank_of_mem_subtreePairs (h : ∀ i, i / 2 ^ n = j → leaf i = none) {p : H × H}
    (hp : p ∈ subtreePairs node filler leaf n j) :
    ∃ k < n, p = (blank node filler k, blank node filler k) := by
  induction n generalizing j with
  | zero => cases hp
  | succ n ih =>
    have hleft := fun i hi => h i (div_succ_eq (.inl hi))
    have hright := fun i hi => h i (div_succ_eq (.inr hi))
    rcases hp with rfl | hp | hp
    · exact ⟨n, by omega, by rw [subtree_eq_blank node filler hleft,
        subtree_eq_blank node filler hright]⟩
    · obtain ⟨k, hk, rfl⟩ := ih hleft hp
      exact ⟨k, by omega, rfl⟩
    · obtain ⟨k, hk, rfl⟩ := ih hright hp
      exact ⟨k, by omega, rfl⟩

/-- A subtree determines the leaves below it. -/
theorem subtree_inj (hleaf : ∀ i, leaf i ≠ some filler) (hleaf' : ∀ i, leaf' i ≠ some filler)
    (hinj : ∀ p ∈ subtreePairs node filler leaf n j, ∀ q ∈ subtreePairs node filler leaf' n j,
      node p.1 p.2 = node q.1 q.2 → p = q)
    (h : subtree node filler leaf n j = subtree node filler leaf' n j) :
    ∀ i, i / 2 ^ n = j → leaf i = leaf' i := by
  induction n generalizing j with
  | zero =>
    intro i hi
    obtain rfl : i = j := by simpa using hi
    have hi := hleaf i
    have hi' := hleaf' i
    simp only [subtree] at h
    cases hx : leaf i <;> cases hy : leaf' i <;> simp_all
  | succ n ih =>
    have hpair := Prod.mk.inj (hinj _ (Set.mem_insert ..) _ (Set.mem_insert ..) h)
    have hleft := ih (fun p hp q hq => hinj p (.inr (.inl hp)) q (.inr (.inl hq))) hpair.1
    have hright := ih (fun p hp q hq => hinj p (.inr (.inr hp)) q (.inr (.inr hq))) hpair.2
    intro i hi
    rw [pow_succ, ← Nat.div_div_eq_div_mul] at hi
    rcases Nat.mod_two_eq_zero_or_one (i / 2 ^ n) with heven | hodd
    · exact hleft i (by omega)
    · exact hright i (by omega)

/-! ## Levels -/

/-- There is a leaf below the node. -/
def Populated (leaf : Nat → Option H) (n j : Nat) : Prop := ∃ i, leaf i ≠ none ∧ i / 2 ^ n = j

theorem populated_succ :
    Populated leaf (n + 1) j ↔ Populated leaf n (2 * j) ∨ Populated leaf n (2 * j + 1) := by
  constructor
  · rintro ⟨i, hi, hj⟩
    rw [pow_succ, ← Nat.div_div_eq_div_mul] at hj
    rcases Nat.mod_two_eq_zero_or_one (i / 2 ^ n) with heven | hodd
    · exact .inl ⟨i, hi, by omega⟩
    · exact .inr ⟨i, hi, by omega⟩
  · rintro (⟨i, hi, hj⟩ | ⟨i, hi, hj⟩)
    · exact ⟨i, hi, div_succ_eq (.inl hj)⟩
    · exact ⟨i, hi, div_succ_eq (.inr hj)⟩

/-- The map holds the nodes of a level that are above leaves. -/
structure Level (leaf : Nat → Option H) (n : Nat) (nodes : OrdMap Nat H) : Prop where
  populated : ∀ j, Populated leaf n j → nodes.get j = some (subtree node filler leaf n j)
  blank : ∀ j, ¬ Populated leaf n j → nodes.get j = none

variable {node filler} {nodes : OrdMap Nat H}

theorem Level.mem_keys (h : Level node filler leaf n nodes) :
    j ∈ nodes.keys ↔ Populated leaf n j := by
  rw [OrdMap.mem_keys]
  by_cases hj : Populated leaf n j
  · simp [h.populated j hj, hj]
  · simp [h.blank j hj, hj]

theorem Level.getD (h : Level node filler leaf n nodes) (j : Nat) :
    (nodes.get j).getD (Sparse.blank node filler n) = subtree node filler leaf n j := by
  by_cases hj : Populated leaf n j
  · rw [h.populated j hj, Option.getD_some]
  · rw [h.blank j hj, Option.getD_none, subtree_eq_blank]
    intro i hi
    by_contra hne
    exact hj ⟨i, hne, hi⟩

/-- The next level is formed at the halves of the indices of this one. -/
theorem Level.up (h : Level node filler leaf n nodes) {indices : List Nat}
    (hindices : ∀ j, j ∈ indices ↔ ∃ i ∈ nodes.keys, i / 2 = j) :
    Level node filler leaf (n + 1) (.ofList (indices.map fun j =>
      (j, node ((nodes.get (2 * j)).getD (Sparse.blank node filler n))
        ((nodes.get (2 * j + 1)).getD (Sparse.blank node filler n))))) := by
  have hmem (j : Nat) : j ∈ indices ↔ Populated leaf (n + 1) j := by
    rw [hindices, populated_succ]
    constructor
    · rintro ⟨i, hi, rfl⟩
      rw [h.mem_keys] at hi
      rcases Nat.mod_two_eq_zero_or_one i with heven | hodd
      · exact .inl (by rwa [show 2 * (i / 2) = i by omega])
      · exact .inr (by rwa [show 2 * (i / 2) + 1 = i by omega])
    · rintro (hj | hj)
      · exact ⟨2 * j, h.mem_keys.mpr hj, by omega⟩
      · exact ⟨2 * j + 1, h.mem_keys.mpr hj, by omega⟩
  constructor <;> intro j hj
  · rw [OrdMap.get_ofList_map, if_pos ((hmem j).mpr hj), h.getD, h.getD, subtree]
  · rw [OrdMap.get_ofList_map, if_neg (mt (hmem j).mp hj)]

end Lib.Sparse
