import Mathlib.Data.List.Induction
import Trillionnium.Lib.Fallible
import Trillionnium.Lib.OrdMap

/-!
# Maps collected from lists

`collect` builds a map from a list of values that carry their keys; it checks each value and refuses
a key that occurs twice. The values of a map collect to that map. Without checks the last value of a
key stays (`exists_get_ofList`).
-/

namespace Lib.OrdMap

variable {K V E : Type} [LinearOrder K] {check : V → Except E Unit} {duplicate : V → E}
  {key : V → K} {m m' : OrdMap K V}

def collectOne (check : V → Except E Unit) (duplicate : V → E) (key : V → K) (m : OrdMap K V)
    (v : V) : Except E (OrdMap K V) := do
  check v
  require (m.get (key v) = none) (duplicate v)
  pure (m.insert (key v) v)

def collect (check : V → Except E Unit) (duplicate : V → E) (key : V → K) (l : List V) :
    Except E (OrdMap K V) :=
  l.foldlM (collectOne check duplicate key) ∅

theorem collectOne_eq_ok {v : V} : collectOne check duplicate key m v = .ok m' ↔
    check v = .ok () ∧ m.get (key v) = none ∧ m' = m.insert (key v) v := by
  simp only [collectOne, bind_eq_ok, require_eq_ok, pure_eq_ok]
  constructor
  · rintro ⟨_, hcheck, _, hnew, rfl⟩
    exact ⟨hcheck, hnew, rfl⟩
  · rintro ⟨hcheck, hnew, rfl⟩
    exact ⟨(), hcheck, (), hnew, rfl⟩

theorem foldlM_collectOne {l : List V} (h : l.foldlM (collectOne check duplicate key) m = .ok m') :
    (∀ v ∈ l, check v = .ok ()) ∧ ∀ k v,
    m'.get k = some v ↔ m.get k = some v ∨ (v ∈ l ∧ key v = k) := by
  induction l generalizing m with
  | nil =>
    obtain rfl := pure_eq_ok.mp h
    simp
  | cons a l ih =>
    rw [List.foldlM_cons, bind_eq_ok] at h
    obtain ⟨_, hone, h⟩ := h
    obtain ⟨hcheck, hnew, rfl⟩ := collectOne_eq_ok.mp hone
    obtain ⟨hchecks, hget⟩ := ih h
    refine ⟨List.forall_mem_cons.mpr ⟨hcheck, hchecks⟩, fun k v => ?_⟩
    have hinsert : (m.insert (key a) a).get k = some v ↔
        m.get k = some v ∨ (v = a ∧ key v = k) := by
      rw [get_insert]
      split
      · next hk =>
        subst hk
        simp only [hnew, reduceCtorEq, false_or, Option.some.injEq]
        exact ⟨fun hv => ⟨hv.symm, hv ▸ rfl⟩, fun hv => hv.1.symm⟩
      · next hk =>
        refine ⟨.inl, fun hv => hv.resolve_right ?_⟩
        rintro ⟨rfl, rfl⟩
        exact hk rfl
    rw [hget, hinsert, List.mem_cons, or_and_right, or_assoc]

/-- A collected map holds the values of the list under their keys. -/
theorem collect_eq_ok {l : List V} (h : collect check duplicate key l = .ok m) :
    (∀ v ∈ l, check v = .ok ()) ∧ ∀ k v, m.get k = some v ↔ v ∈ l ∧ key v = k := by
  obtain ⟨hchecks, hget⟩ := foldlM_collectOne h
  exact ⟨hchecks, fun k v => by simp [hget]⟩

theorem exists_foldlM_collectOne {l : List V} :
    (∃ m', l.foldlM (collectOne check duplicate key) m = .ok m') ↔
      (∀ v ∈ l, check v = .ok ()) ∧ (l.map key).Nodup ∧ ∀ v ∈ l, m.get (key v) = none := by
  induction l generalizing m with
  | nil => simp
  | cons a l ih =>
    have hstep : (∃ m', (a :: l).foldlM (collectOne check duplicate key) m = .ok m') ↔
        check a = .ok () ∧ m.get (key a) = none ∧
          ∃ m', l.foldlM (collectOne check duplicate key) (m.insert (key a) a) = .ok m' := by
      simp only [List.foldlM_cons, bind_eq_ok, collectOne_eq_ok]
      constructor
      · rintro ⟨m', _, ⟨hcheck, hnew, rfl⟩, h⟩
        exact ⟨hcheck, hnew, m', h⟩
      · rintro ⟨hcheck, hnew, m', h⟩
        exact ⟨m', _, ⟨hcheck, hnew, rfl⟩, h⟩
    have hfresh : (∀ v ∈ l, (m.insert (key a) a).get (key v) = none) ↔
        key a ∉ l.map key ∧ ∀ v ∈ l, m.get (key v) = none := by
      simp only [get_insert, List.mem_map, not_exists, not_and, ← forall₂_and]
      refine forall₂_congr fun v _ => ?_
      rw [eq_comm (a := key v)]
      split <;> simp_all
    rw [hstep, ih, hfresh]
    simp only [List.forall_mem_cons, List.map_cons, List.nodup_cons]
    tauto

/-- A list collects when its values pass the check and no key occurs twice. -/
theorem exists_collect {l : List V} : (∃ m, collect check duplicate key l = .ok m) ↔
    (∀ v ∈ l, check v = .ok ()) ∧ (l.map key).Nodup := by
  rw [collect.eq_def, exists_foldlM_collectOne]
  simp

/-- A map made from a list has the keys of the list, each with one of its values. -/
theorem exists_get_ofList {l : List (K × V)} {k : K} {v : V} (h : (k, v) ∈ l) :
    ∃ w, (ofList l).get k = some w ∧ (k, w) ∈ l := by
  induction l using List.reverseRecOn generalizing v with
  | nil => cases h
  | append_singleton l e ih =>
    simp only [ofList, List.foldl_append, List.foldl_cons, List.foldl_nil, get_insert]
    split
    · next heq => exact ⟨e.2, rfl, by simp [← heq]⟩
    · next hne =>
      rcases List.mem_append.mp h with h | h
      · obtain ⟨w, hw, hmem⟩ := ih h
        exact ⟨w, hw, List.mem_append_left _ hmem⟩
      · exact absurd (congrArg Prod.fst (List.mem_singleton.mp h)).symm hne

end Lib.OrdMap
