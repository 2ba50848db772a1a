import Trillionnium.Lib.OrdMap

/-!
# Deltas between finite maps

A delta lists the keys at which two maps differ, each with its value before and after, `none` for
an absent key. Applying a delta, forwards or backwards, checks every key against the value it
expects. The delta of two maps takes the first to the second and back.
-/

namespace Lib

variable {K V : Type} [LinearOrder K]

/-- Insert a value, or erase the key. -/
def OrdMap.set (m : OrdMap K V) (k : K) : Option V → OrdMap K V
  | some v => m.insert k v
  | none => m.erase k

theorem OrdMap.get_set {m : OrdMap K V} {k j : K} {o : Option V} :
    (m.set k o).get j = if k = j then o else m.get j := by
  cases o with
  | some v => exact get_insert
  | none => exact get_erase

/-- What stood at a key, and what stands there now. -/
abbrev Delta (K V : Type) [LinearOrder K] := OrdMap K (Option V × Option V)

namespace Delta

variable [DecidableEq V] {a b m : OrdMap K V} {k : K}

def diff (a b : OrdMap K V) : Delta K V :=
  (a.keys ++ b.keys).foldl (fun d k => if a.get k = b.get k then d
    else d.insert k (a.get k, b.get k)) ∅

private theorem get_foldl {l : List K} {d : Delta K V} :
    (l.foldl (fun d k => if a.get k = b.get k then d else d.insert k (a.get k, b.get k)) d).get k =
      if k ∈ l ∧ a.get k ≠ b.get k then some (a.get k, b.get k) else d.get k := by
  induction l generalizing d with
  | nil => simp
  | cons j l ih =>
    rw [List.foldl_cons, ih]
    by_cases hne : a.get k = b.get k
    · by_cases hj : a.get j = b.get j
      · simp [hne, hj]
      · have hkj : j ≠ k := by rintro rfl; exact hj hne
        simp [hne, hj, OrdMap.get_insert_ne hkj]
    · by_cases hl : k ∈ l
      · simp [hne, hl]
      · by_cases hkj : k = j
        · subst hkj
          simp [hne, hl, OrdMap.get_insert_self]
        · by_cases hj : a.get j = b.get j
          · simp [hne, hl, hkj, hj]
          · simp [hl, hkj, hj, OrdMap.get_insert_ne (Ne.symm hkj)]

theorem get_diff :
    (diff a b).get k = if a.get k = b.get k then none else some (a.get k, b.get k) := by
  have hkeys : ∀ {m : OrdMap K V}, k ∉ m.keys → m.get k = none := fun h => by
    by_contra hne
    exact h (OrdMap.mem_keys.mpr hne)
  rw [diff, get_foldl]
  by_cases he : a.get k = b.get k
  · simp only [he, ne_eq, not_true, and_false, if_false, if_true]
    exact OrdMap.get_empty
  · have hmem : k ∈ a.keys ++ b.keys := by
      by_contra hn
      rw [List.mem_append, not_or] at hn
      exact he ((hkeys hn.1).trans (hkeys hn.2).symm)
    simp [he, hmem]

/-- What a key must hold, and what it is given. -/
def turned (back : Bool) (x : Option V × Option V) : Option V × Option V :=
  if back then x.swap else x

/-- Apply a delta, backwards if `back` holds. -/
def patch (back : Bool) (d : Delta K V) (m : OrdMap K V) : Option (OrdMap K V) :=
  d.entries.foldlM (fun m e =>
    if m.get e.1 = (turned back e.2).1 then some (m.set e.1 (turned back e.2).2) else none) m

private theorem foldlM_patch {back : Bool} {l : List (K × Option V × Option V)}
    (hnodup : (l.map Prod.fst).Nodup) (h : ∀ e ∈ l, m.get e.1 = (turned back e.2).1) :
    ∃ m', l.foldlM (fun m e =>
      if m.get e.1 = (turned back e.2).1 then some (m.set e.1 (turned back e.2).2)
        else none) m = some m' ∧
      ∀ k, m'.get k = (Assoc.find k l).elim (m.get k) fun x => (turned back x).2 := by
  induction l generalizing m with
  | nil => exact ⟨m, rfl, fun _ => rfl⟩
  | cons e l ih =>
    obtain ⟨hfresh, hnodup⟩ := List.nodup_cons.mp hnodup
    obtain ⟨hfirst, hrest⟩ := List.forall_mem_cons.mp h
    -- the other keys still hold what they must
    obtain ⟨m', hm', hget⟩ := ih (m := m.set e.1 (turned back e.2).2) hnodup fun x hx => by
      have hne : e.1 ≠ x.1 := fun he => hfresh (he ▸ List.mem_map_of_mem hx)
      rw [OrdMap.get_set, if_neg hne, hrest x hx]
    refine ⟨m', by rw [List.foldlM_cons, if_pos hfirst]; exact hm', fun k => ?_⟩
    rw [hget k, OrdMap.get_set]
    by_cases he : e.1 = k
    · subst he
      have hnone : Assoc.find e.1 l = none := by
        by_contra hne
        obtain ⟨x, hx⟩ := Option.ne_none_iff_exists'.mp hne
        exact hfresh (List.mem_map.mpr ⟨_, Assoc.mem_of_find_eq_some hx, rfl⟩)
      simp [hnone, Assoc.find]
    · simp [he, Assoc.find]

theorem patch_of_holds (back : Bool) {d : Delta K V}
    (h : ∀ k x, d.get k = some x → m.get k = (turned back x).1) : ∃ m', patch back d m = some m' ∧
      ∀ k, m'.get k = (d.get k).elim (m.get k) fun x => (turned back x).2 :=
  foldlM_patch d.nodup_keys fun e he => h e.1 e.2 (OrdMap.mem_entries.mp he)

/-- A delta leads from one of its maps to the other. -/
private theorem patch_diff (back : Bool) :
    patch back (diff a b) (if back then b else a) = some (if back then a else b) := by
  obtain ⟨m', hm', hget⟩ := patch_of_holds back (d := diff a b) (m := if back then b else a)
    fun k x hx => by
      rw [get_diff] at hx
      split at hx
      · cases hx
      · cases hx
        cases back <;> rfl
  rw [hm', Option.some.injEq]
  refine OrdMap.ext_get fun k => ?_
  rw [hget, get_diff]
  by_cases he : a.get k = b.get k
  · cases back <;> simp [he]
  · cases back <;> simp [he, turned]

theorem attach_diff : patch false (diff a b) a = some b := patch_diff false

theorem detach_diff : patch true (diff a b) b = some a := patch_diff true

end Delta

end Lib
