import Trillionnium.Lib.Fallible
import Mathlib.Data.List.Nodup
import Mathlib.Data.List.Flatten
import Mathlib.Data.Prod.Lex

/-!
# Work shared between workers

`count` workers take the elements of a list in turn: worker `w` takes the positions `w`, `w +
count`, `w + 2 * count` and so on. Joined worker by worker they hold every position once
(`joined_perm`), by worker and position (`joined_sorted`), so writing what they computed into one
slot for each position gives the list in its own order, whatever their number (`fill_joined`).
-/

namespace Lib

variable {E α β : Type}

/-- The elements a worker takes, with their positions. -/
def dealt (count : Nat) (l : List α) (worker : Nat) : List (α × Nat) :=
  l.zipIdx.filter fun x => x.2 % count = worker

/-- The elements of all workers, worker by worker. -/
def joined (count : Nat) (l : List α) : List (α × Nat) := (List.range count).flatMap (dealt count l)

/-- Elements collected class by class are the elements. -/
theorem flatMap_filter_perm (f : α → Nat) (n : Nat) (h : ∀ a ∈ l, f a < n) :
    ((List.range n).flatMap fun k => l.filter fun a => f a = k).Perm l := by
  induction n generalizing l with
  | zero => cases l with
    | nil => exact .refl _
    | cons a l => exact absurd (h a List.mem_cons_self) (Nat.not_lt_zero _)
  | succ n ih =>
    -- the first `n` classes of `l` are those of the elements below `n`
    have hlow : ∀ k ∈ List.range n, (l.filter fun a => f a = k) =
        (l.filter fun a => f a < n).filter fun a => f a = k := by
      intro k hk
      rw [List.filter_filter]
      refine List.filter_congr fun a _ => ?_
      have := List.mem_range.mp hk
      by_cases hak : f a = k <;> simp [hak, this]
    have hlast : (l.filter fun a => f a = n) = l.filter fun a => !decide (f a < n) := by
      refine List.filter_congr fun a ha => ?_
      have := h a ha
      simp only [decide_eq_decide, ← decide_not]
      omega
    rw [List.range_succ, List.flatMap_append, List.flatMap_singleton,
      List.flatMap_congr hlow, hlast]
    refine .trans (.append_right _ (ih fun a ha => ?_)) (List.filter_append_perm _ l)
    simpa using (List.mem_filter.mp ha).2

theorem joined_perm (hc : 0 < count) (l : List α) : (joined count l).Perm l.zipIdx :=
  flatMap_filter_perm (fun x : α × Nat => x.2 % count) count fun _ _ => Nat.mod_lt _ hc

theorem map_fst_joined_perm (hc : 0 < count) (l : List α) :
    ((joined count l).map Prod.fst).Perm l := by
  simpa using (joined_perm hc l).map Prod.fst

/-- The workers hold the positions by (position mod `count`, position). -/
theorem joined_sorted (count : Nat) (l : List α) :
    (joined count l).Pairwise fun x y => toLex (x.2 % count, x.2) < toLex (y.2 % count, y.2) := by
  have hworker : ∀ {x : α × Nat} {worker}, x ∈ dealt count l worker → x.2 % count = worker :=
    fun hx => of_decide_eq_true (List.mem_filter.mp hx).2
  refine List.pairwise_flatMap.mpr ⟨fun worker _ => ?_, ?_⟩
  · have hidx : l.zipIdx.Pairwise fun x y => x.2 < y.2 := by
      rw [← List.pairwise_map (f := Prod.snd) (R := (· < ·)), List.zipIdx_map_snd]
      exact List.pairwise_lt_range'
    refine (hidx.filter _).imp_of_mem fun hx hy hlt => ?_
    rw [hworker hx, hworker hy]
    exact Prod.Lex.toLex_lt_toLex.mpr (.inr ⟨rfl, hlt⟩)
  · refine List.pairwise_lt_range.imp fun hlt x hx y hy => ?_
    rw [hworker hx, hworker hy]
    exact Prod.Lex.toLex_lt_toLex.mpr (.inl hlt)

/-- In an ordered list the first element with a value is the least one. -/
theorem findSome?_eq_some_of_sorted {K : Type} [LinearOrder K] {key : α → K} {l : List α}
    (hl : l.Pairwise fun x y => key x < key y) :
    l.findSome? f = some b ↔ ∃ x ∈ l, f x = some b ∧ ∀ y ∈ l, f y ≠ none → key x ≤ key y := by
  induction l with
  | nil => simp
  | cons a l ih =>
    obtain ⟨ha, hl⟩ := List.pairwise_cons.mp hl
    cases hf : f a with
    | none => simp [hf, ih hl]
    | some c =>
      simp only [List.findSome?_cons, hf, List.mem_cons, exists_eq_or_imp, forall_eq_or_imp]
      refine ⟨fun h => .inl ⟨h, fun _ => le_rfl, fun y hy _ => (ha y hy).le⟩, ?_⟩
      rintro (⟨h, -⟩ | ⟨x, hx, -, hle, -⟩)
      · exact h
      · exact absurd (hle nofun) (ha x hx).not_ge

/-- Write each row into the slot of its position. -/
def fill (rows : List (Nat × α)) (slots : List (Option α)) : List (Option α) :=
  rows.foldl (fun slots row => slots.set row.1 (some row.2)) slots

@[simp] theorem length_fill : (fill rows slots).length = slots.length := by
  induction rows generalizing slots with
  | nil => rfl
  | cons row rows ih => exact ih.trans List.length_set

/-- A slot that one value is written to, by one row or by several, holds that value. -/
theorem getElem?_fill {a : α} (hi : i < slots.length) (hrow : ∀ row ∈ rows, row.1 = i → row.2 = a)
    (h : (∃ row ∈ rows, row.1 = i) ∨ slots[i]? = some (some a)) :
    (fill rows slots)[i]? = some (some a) := by
  induction rows generalizing slots with
  | nil => simpa [fill] using h
  | cons row rows ih =>
    refine ih (by simpa using hi) (fun r hr => hrow r (List.mem_cons_of_mem _ hr)) ?_
    by_cases hp : row.1 = i
    · right
      show (slots.set row.1 (some row.2))[i]? = _
      rw [hp, List.getElem?_set_self hi, hrow row List.mem_cons_self hp]
    · rcases h with ⟨r, hr, hri⟩ | h
      · rcases List.mem_cons.mp hr with rfl | hr
        · exact absurd hri hp
        · exact .inl ⟨r, hr, hri⟩
      · right
        exact (List.getElem?_set_ne hp).trans h

/-- Filling the slots from every worker gives the results in list order. -/
theorem fill_joined {count : Nat} (hc : 0 < count) (l : List α) (f : α → β) :
    fill ((joined count l).map fun x => (x.2, f x.1)) (List.replicate l.length none) =
      l.map fun a => some (f a) := by
  apply List.ext_getElem?
  intro i
  by_cases hi : i < l.length
  · have hmem : ∀ x : α × Nat, x ∈ joined count l ↔ l[x.2]? = some x.1 := fun x => by
      rw [(joined_perm hc l).mem_iff, List.mem_zipIdx_iff_getElem?]
    rw [getElem?_fill (a := f l[i]) (by simpa using hi)]
    · simp [hi]
    · rintro _ hrow rfl
      obtain ⟨x, hx, rfl⟩ := List.mem_map.mp hrow
      have := (hmem x).mp hx
      rw [List.getElem?_eq_getElem hi] at this
      exact congrArg f (Option.some.inj this).symm
    · exact .inl ⟨(i, f l[i]), List.mem_map.mpr ⟨(l[i], i), (hmem _).mpr (by simp [hi]), rfl⟩, rfl⟩
  · rw [List.getElem?_eq_none (by simpa using hi), List.getElem?_eq_none (by simpa using hi)]

/-- Filling from rows that may have failed stops at the first failed row. -/
theorem foldlM_fill (rows : List (Nat × Except E α)) (slots : List (Option α)) :
    (rows.foldlM (fun slots row => do
      let a ← row.2
      pure (slots.set row.1 (some a))) slots : Except E _) =
      (rows.mapM fun row => do
        let a ← row.2
        pure (row.1, a)) >>= fun rows => pure (fill rows slots) := by
  induction rows generalizing slots with
  | nil => rfl
  | cons row rows ih =>
    simp only [List.foldlM_cons, List.mapM_cons, bind_assoc, pure_bind, ih]
    rfl

end Lib
