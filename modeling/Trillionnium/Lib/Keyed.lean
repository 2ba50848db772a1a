import Mathlib.Data.List.Induction
import Trillionnium.Lib.OrdMap

/-!
# Sums by key

The sum of the amounts that a list has at a key, and what is left of it when the list is read into
a map, where an entry replaces an earlier one of its key.
-/

namespace Lib

variable {α K : Type} [DecidableEq K] {key : α → K} {amount : α → Nat} {l l' : List α} {k : K}

def sumAt (key : α → K) (amount : α → Nat) (l : List α) (k : K) : Nat :=
  ((l.filter fun a => key a = k).map amount).sum

@[simp] theorem sumAt_nil : sumAt key amount [] k = 0 := rfl

theorem sumAt_cons {a : α} : sumAt key amount (a :: l) k =
    (if key a = k then amount a else 0) + sumAt key amount l k := by
  by_cases h : key a = k <;> simp [sumAt, h]

theorem sumAt_append :
    sumAt key amount (l ++ l') k = sumAt key amount l k + sumAt key amount l' k := by
  simp [sumAt]

theorem sumAt_perm (h : l.Perm l') : sumAt key amount l k = sumAt key amount l' k :=
  ((h.filter _).map _).sum_eq

theorem sumAt_map {β : Type} {f : β → α} {l : List β} :
    sumAt key amount (l.map f) k = sumAt (key ∘ f) (amount ∘ f) l k := by
  simp [sumAt, List.filter_map, Function.comp_def]

theorem sumAt_eq_zero (hpos : ∀ a ∈ l, 0 < amount a) :
    sumAt key amount l k = 0 ↔ k ∉ l.map key := by
  induction l with
  | nil => simp
  | cons a l ih =>
    obtain ⟨ha, hl⟩ := List.forall_mem_cons.mp hpos
    rw [sumAt_cons, Nat.add_eq_zero_iff, ih hl, List.map_cons, List.mem_cons, not_or]
    refine and_congr_left fun _ => ?_
    by_cases h : key a = k
    · simp [h, ha.ne']
    · simp [h, Ne.symm h]

/-! ## Maps -/

namespace OrdMap

variable {V : Type} {K : Type} [LinearOrder K] {key : α → K} (value : α → V) (weight : V → Nat)

theorem get_ofList_snoc {l : List (K × V)} {e : K × V} {k : K} :
    (ofList (l ++ [e])).get k = if e.1 = k then some e.2 else (ofList l).get k := by
  rw [ofList, List.foldl_append]
  exact get_insert

/-- What a map has at a key is at most what the list had there. -/
theorem weight_ofList_le {k : K} :
    ((ofList (l.map fun a => (key a, value a))).get k).elim 0 weight ≤
      sumAt key (fun a => weight (value a)) l k := by
  induction l using List.reverseRecOn with
  | nil => simp [ofList]
  | append_singleton l a ih =>
    rw [List.map_append, List.map_singleton, get_ofList_snoc, sumAt_append, sumAt_cons]
    by_cases h : key a = k
    · simp [h]
    · simpa [h] using ih

/-- A map keeps the sums of a list of positive amounts exactly when no key is repeated. -/
theorem weight_ofList_eq_iff (hpos : ∀ a ∈ l, 0 < weight (value a)) :
    (∀ k, ((ofList (l.map fun a => (key a, value a))).get k).elim 0 weight =
      sumAt key (fun a => weight (value a)) l k) ↔ (l.map key).Nodup := by
  induction l using List.reverseRecOn with
  | nil => simp [ofList]
  | append_singleton l a ih =>
    have hl : ∀ a ∈ l, 0 < weight (value a) := fun b hb => hpos b (List.mem_append_left _ hb)
    have hsnoc : (∀ k, ((ofList ((l ++ [a]).map fun a => (key a, value a))).get k).elim 0 weight =
        sumAt key (fun a => weight (value a)) (l ++ [a]) k) ↔
        sumAt key (fun a => weight (value a)) l (key a) = 0 ∧
          ∀ k, ((ofList (l.map fun a => (key a, value a))).get k).elim 0 weight =
            sumAt key (fun a => weight (value a)) l k := by
      simp only [List.map_append, List.map_singleton, get_ofList_snoc, sumAt_append, sumAt_cons,
        sumAt_nil]
      constructor
      · intro h
        have hzero : sumAt key (fun a => weight (value a)) l (key a) = 0 := by
          have := h (key a)
          simp only [if_true, Option.elim_some] at this
          omega
        refine ⟨hzero, fun k => ?_⟩
        by_cases hk : key a = k
        · subst hk
          exact le_antisymm (weight_ofList_le value weight) (hzero.trans_le (Nat.zero_le _))
        · simpa [hk] using h k
      · rintro ⟨hzero, h⟩ k
        by_cases hk : key a = k
        · subst hk
          simp [hzero]
        · simpa [hk] using h k
    rw [hsnoc, ih hl, sumAt_eq_zero hl, List.map_append, List.map_singleton,
      ← List.concat_eq_append, List.nodup_concat]

end OrdMap

end Lib
