import Mathlib.Data.List.Dedup
import Mathlib.Data.List.Induction
import Mathlib.Data.List.Perm.Basic

/-!
# Grouping

A list of keyed values gathered into one list for each key, keys and values in the order in which
they come. Up to the order of the keys the groups are the filters of the list.
-/

namespace Lib

variable {K V : Type} [DecidableEq K]

def pushAt (k : K) (v : V) : List (K × List V) → List (K × List V)
  | [] => [(k, [v])]
  | g :: groups => if g.1 = k then (g.1, g.2 ++ [v]) :: groups else g :: pushAt k v groups

def grouped (l : List (K × V)) : List (K × List V) :=
  l.foldl (fun groups e => pushAt e.1 e.2 groups) []

def groupAt (k : K) : List (K × List V) → List V
  | [] => []
  | g :: groups => if g.1 = k then g.2 else groupAt k groups

section
variable {k k' : K} {v : V} {groups : List (K × List V)} {l : List (K × V)}

theorem keys_pushAt : (pushAt k v groups).map Prod.fst =
    if k ∈ groups.map Prod.fst then groups.map Prod.fst else groups.map Prod.fst ++ [k] := by
  induction groups with
  | nil => rfl
  | cons g groups ih =>
    rw [pushAt]
    split
    · next heq => simp [heq]
    · next hne =>
      rw [List.map_cons, ih]
      by_cases hmem : k ∈ groups.map Prod.fst
      · simp only [List.map_cons, List.mem_cons, hmem, or_true, if_true]
      · simp only [List.map_cons, List.mem_cons, hmem, Ne.symm hne, or_self, if_false,
          List.cons_append]

theorem groupAt_pushAt :
    groupAt k' (pushAt k v groups) = groupAt k' groups ++ if k = k' then [v] else [] := by
  induction groups with
  | nil => rw [pushAt, groupAt, groupAt, groupAt, List.nil_append]
  | cons g groups ih =>
    rw [pushAt]
    split
    · next heq =>
      subst heq
      rw [groupAt, groupAt]
      by_cases hk : g.1 = k' <;> simp [hk]
    · next hne =>
      rw [groupAt, groupAt, ih]
      by_cases hk : g.1 = k'
      · rw [if_pos hk, if_pos hk, if_neg fun h => hne (hk.trans h.symm), List.append_nil]
      · rw [if_neg hk, if_neg hk]

theorem eq_map_groupAt (h : (groups.map Prod.fst).Nodup) :
    groups = (groups.map Prod.fst).map fun k => (k, groupAt k groups) := by
  induction groups with
  | nil => rfl
  | cons g groups ih =>
    rw [List.map_cons, List.nodup_cons] at h
    rw [List.map_cons, List.map_cons, groupAt, if_pos rfl]
    refine congrArg (_ :: ·) ((ih h.2).trans (List.map_congr_left fun k hk => ?_))
    rw [groupAt, if_neg]
    rintro rfl
    exact h.1 hk

theorem grouped_snoc {e : K × V} : grouped (l ++ [e]) = pushAt e.1 e.2 (grouped l) := by
  rw [grouped, List.foldl_append]
  rfl

theorem nodup_keys_grouped (l : List (K × V)) : ((grouped l).map Prod.fst).Nodup := by
  induction l using List.reverseRecOn with
  | nil => exact List.nodup_nil
  | append_singleton l e ih =>
    rw [grouped_snoc, keys_pushAt]
    split
    · exact ih
    · next hnew =>
      refine List.nodup_append.mpr ⟨ih, List.nodup_singleton _, fun a ha b hb heq => hnew ?_⟩
      rwa [← List.mem_singleton.mp hb, ← heq]

theorem mem_keys_grouped : k ∈ (grouped l).map Prod.fst ↔ k ∈ l.map Prod.fst := by
  induction l using List.reverseRecOn with
  | nil => rfl
  | append_singleton l e ih =>
    rw [grouped_snoc, keys_pushAt, List.map_append, List.mem_append, ← ih]
    split
    · next hold =>
      refine ⟨.inl, fun h => h.elim id fun heq => ?_⟩
      rwa [List.mem_singleton.mp heq]
    · rw [List.mem_append]
      rfl

theorem groupAt_grouped : groupAt k (grouped l) = (l.filter fun e => e.1 = k).map Prod.snd := by
  induction l using List.reverseRecOn with
  | nil => rfl
  | append_singleton l e ih =>
    rw [grouped_snoc, groupAt_pushAt, ih, List.filter_append, List.map_append]
    by_cases hk : e.1 = k <;> simp [hk]

theorem grouped_perm (l : List (K × V)) : (grouped l).Perm
    ((l.map Prod.fst).dedup.map fun k => (k, (l.filter fun e => e.1 = k).map Prod.snd)) := by
  rw [eq_map_groupAt (nodup_keys_grouped l)]
  simp only [groupAt_grouped]
  refine List.Perm.map _ ((List.perm_ext_iff_of_nodup (nodup_keys_grouped l)
    (List.nodup_dedup _)).mpr fun k => ?_)
  rw [mem_keys_grouped, List.mem_dedup]

end

end Lib
