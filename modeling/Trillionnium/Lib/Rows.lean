import Mathlib.Data.List.Sort
import Trillionnium.Lib.Fallible

/-!
# Rows in strict key order

A table read in the order of its keys. Two tables with the same rows at every key are equal
(`Sorted.ext`). `edit` writes a sorted list of changes over a table in one pass, `diff` finds in one
pass the changes between two tables, and the changes found lead from the one to the other
(`edit_diff`). `checkOrdered` is the loop that validates rows and compares each key with the
previous one.
-/

namespace Lib.Rows

variable {K α ε E : Type} [LinearOrder K]

/-- Strictly increasing keys. -/
def Sorted (key : α → K) (l : List α) : Prop := l.Pairwise fun a b => key a < key b

def find (key : α → K) (k : K) (l : List α) : Option α := l.find? fun a => key a = k

section
variable {key : α → K} {k : K} {a b : α} {l l' : List α}

@[simp] theorem find_nil : find key k [] = none := rfl

theorem find_cons : find key k (a :: l) = if key a = k then some a else find key k l := by
  rw [find, List.find?_cons]
  by_cases h : key a = k
  · simp [h]
  · simp [h, find]

theorem key_of_find (h : find key k l = some a) : key a = k := by
  simpa using List.find?_some h

theorem mem_of_find (h : find key k l = some a) : a ∈ l := List.mem_of_find?_eq_some h

theorem find_eq_none : find key k l = none ↔ ∀ a ∈ l, key a ≠ k := by
  simp [find, List.find?_eq_none]

theorem Sorted.find_key (h : Sorted key l) (ha : a ∈ l) : find key (key a) l = some a := by
  induction l with
  | nil => cases ha
  | cons b l ih =>
    obtain ⟨hlt, hl⟩ := List.pairwise_cons.mp h
    rw [find_cons]
    rcases List.mem_cons.mp ha with rfl | ha
    · exact if_pos rfl
    · rw [if_neg (hlt a ha).ne]
      exact ih hl ha

theorem Sorted.nodup (h : Sorted key l) : l.Nodup := by
  refine h.imp ?_
  rintro a _ hlt rfl
  exact lt_irrefl _ hlt

theorem Sorted.sublist (h : Sorted key l) (hsub : l'.Sublist l) : Sorted key l' :=
  List.Pairwise.sublist hsub h

/-- Sorted tables with the same rows are equal. -/
theorem Sorted.ext (h : Sorted key l) (h' : Sorted key l')
    (hfind : ∀ k, find key k l = find key k l') : l = l' := by
  have hperm : l.Perm l' := (List.perm_ext_iff_of_nodup h.nodup h'.nodup).mpr fun a =>
    ⟨fun ha => mem_of_find ((hfind _).symm.trans (h.find_key ha)),
      fun ha => mem_of_find ((hfind _).trans (h'.find_key ha))⟩
  exact hperm.eq_of_pairwise (fun a b _ _ hab hba => absurd hab (lt_asymm hba)) h h'

/-- A row at the front is below every key that the rest could hold. -/
theorem Sorted.find_of_le (h : Sorted key (a :: l)) (hk : k ≤ key a) : find key k l = none :=
  find_eq_none.mpr fun _ hb => (hk.trans_lt ((List.pairwise_cons.mp h).1 _ hb)).ne'

theorem find_append : find key k (l ++ l') = (find key k l).or (find key k l') := List.find?_append

end

/-! ## Checking the order -/

section
variable (validate : α → Except E Unit) (key : α → K) (unordered : E)

/-- Validate each row, and compare its key with the previous one. -/
def checkOrdered : Option K → List α → Except E Unit
  | _, [] => .ok ()
  | previous, a :: l => do
    validate a
    require (∀ k ∈ previous, k < key a) unordered
    checkOrdered (some (key a)) l

variable {validate key unordered} {previous : Option K} {l : List α}

theorem checkOrdered_eq_ok {u : Unit} : checkOrdered validate key unordered previous l = .ok u ↔
    (∀ a ∈ l, validate a = .ok ()) ∧ (∀ k ∈ previous, ∀ a ∈ l, k < key a) ∧ Sorted key l := by
  induction l generalizing previous with
  | nil => simp [checkOrdered, Sorted]
  | cons a l ih =>
    simp only [checkOrdered, bind_eq_ok, require_eq_ok, ih]
    constructor
    · rintro ⟨⟨⟩, hvalid, -, hfirst, hall, habove, hsorted⟩
      have habove : ∀ b ∈ l, key a < key b := habove (key a) rfl
      refine ⟨List.forall_mem_cons.mpr ⟨hvalid, hall⟩, fun k hk =>
        ?_, List.pairwise_cons.mpr ⟨habove, hsorted⟩⟩
      exact List.forall_mem_cons.mpr ⟨hfirst k hk, fun b hb => (hfirst k hk).trans (habove b hb)⟩
    · rintro ⟨hall, habove, hsorted⟩
      obtain ⟨hvalid, hall⟩ := List.forall_mem_cons.mp hall
      obtain ⟨hlt, hsorted⟩ := List.pairwise_cons.mp hsorted
      refine ⟨(), hvalid, (), fun k hk => habove k hk a List.mem_cons_self, hall, ?_, hsorted⟩
      rintro k ⟨⟩
      exact hlt

end

/-! ## Changes -/

/-- The rest of a table after the row at a key, if it comes first. -/
def skip (key : α → K) (k : K) : List α → List α
  | [] => []
  | a :: l => if key a = k then l else a :: l

section
variable (key : α → K) (place : ε → K) (put : ε → Option α)

/-- Write the changes, in the order of their keys, over a table. -/
def edit : List ε → List α → List α
  | [], l => l
  | e :: es, l => l.takeWhile (key · < place e) ++ (put e).toList ++
      edit es (skip key (place e) (l.dropWhile (key · < place e)))

variable {key place put} {k : K} {e : ε} {es : List ε} {l : List α}

theorem lt_of_mem_takeWhile {a : α} (h : a ∈ l.takeWhile (key · < k)) : key a < k := by
  induction l with
  | nil => cases h
  | cons b l ih =>
    rw [List.takeWhile_cons] at h
    split at h
    · next hb =>
      rcases List.mem_cons.mp h with rfl | h
      · simpa using hb
      · exact ih h
    · cases h

theorem Sorted.le_of_mem_dropWhile (h : Sorted key l) :
    ∀ a ∈ l.dropWhile (key · < k), k ≤ key a := by
  induction l with
  | nil => simp
  | cons b l ih =>
    obtain ⟨hlt, hl⟩ := List.pairwise_cons.mp h
    rw [List.dropWhile_cons]
    split
    · exact ih hl
    · next hb =>
      have hk : k ≤ key b := by simpa using hb
      exact List.forall_mem_cons.mpr ⟨hk, fun a ha => hk.trans (hlt a ha).le⟩

theorem skip_sublist : (skip key k l).Sublist l := by
  unfold skip
  split
  · exact .slnil
  · split
    · exact List.sublist_cons_self ..
    · exact .refl _

theorem Sorted.lt_of_mem_skip (h : Sorted key l) (hge : ∀ a ∈ l, k ≤ key a) :
    ∀ a ∈ skip key k l, k < key a := by
  intro a ha
  unfold skip at ha
  split at ha
  · cases ha
  · next b l =>
    obtain ⟨hlt, -⟩ := List.pairwise_cons.mp h
    obtain ⟨hb, -⟩ := List.forall_mem_cons.mp hge
    split at ha
    · next hk => exact hk ▸ hlt a ha
    · next hk =>
      have hlt' := lt_of_le_of_ne hb (Ne.symm hk)
      rcases List.mem_cons.mp ha with rfl | ha
      · exact hlt'
      · exact hlt'.trans (hlt a ha)

theorem find_skip {j : K} (hne : k ≠ j) : find key j (skip key k l) = find key j l := by
  unfold skip
  split
  · rfl
  · split
    · next hk => rw [find_cons, if_neg (hk ▸ hne)]
    · rfl

/-- What is written is at the place of the change. -/
def Placed (key : α → K) (place : ε → K) (put : ε → Option α) : Prop :=
  ∀ e a, put e = some a → key a = place e

theorem mem_edit {a : α} (h : a ∈ edit key place put es l) : a ∈ l ∨ ∃ e ∈ es, put e = some a := by
  induction es generalizing l with
  | nil => exact .inl h
  | cons e es ih =>
    rw [edit, List.mem_append, List.mem_append, Option.mem_toList] at h
    rcases h with (h | h) | h
    · exact .inl (List.takeWhile_sublist _ |>.subset h)
    · exact .inr ⟨e, List.mem_cons_self, h⟩
    · rcases ih h with h | ⟨x, hx, h⟩
      · exact .inl ((List.dropWhile_sublist _).subset (skip_sublist.subset h))
      · exact .inr ⟨x, List.mem_cons_of_mem _ hx, h⟩

/-- What follows a change is behind it. -/
theorem lt_of_mem_edit (hput : Placed key place put) (hes : Sorted place (e :: es))
    (hl : Sorted key l) :
    ∀ a ∈ edit key place put es (skip key (place e) (l.dropWhile (key · < place e))),
    place e < key a := by
  intro a ha
  rcases mem_edit ha with ha | ⟨x, hx, ha⟩
  · exact (hl.sublist (List.dropWhile_sublist _)).lt_of_mem_skip hl.le_of_mem_dropWhile a ha
  · rw [hput x a ha]
    exact (List.pairwise_cons.mp hes).1 x hx

theorem Sorted.edit (hput : Placed key place put) (hes : Sorted place es) (hl : Sorted key l) :
    Sorted key (edit key place put es l) := by
  induction es generalizing l with
  | nil => exact hl
  | cons e es ih =>
    have hrest : Sorted key (Rows.edit key place put es
        (skip key (place e) (l.dropWhile (key · < place e)))) :=
      ih (List.pairwise_cons.mp hes).2 ((hl.sublist (List.dropWhile_sublist _)).sublist
        skip_sublist)
    have hbehind := lt_of_mem_edit hput hes hl
    have hone : ∀ a ∈ (put e).toList, key a = place e := fun a ha => hput e a (by simpa using ha)
    rw [Rows.edit, List.append_assoc]
    refine List.pairwise_append.mpr ⟨hl.sublist (List.takeWhile_sublist _),
      List.pairwise_append.mpr ⟨?_, hrest, fun a ha b hb => ?_⟩, fun a ha b hb => ?_⟩
    · cases put e <;> simp
    · rw [hone a ha]
      exact hbehind b hb
    · have hlt := lt_of_mem_takeWhile ha
      rcases List.mem_append.mp hb with hb | hb
      · rw [hone b hb]
        exact hlt
      · exact hlt.trans (hbehind b hb)

/-- Each listed key is set or removed, and every other key is untouched. -/
theorem find_edit (hput : Placed key place put) (hes : Sorted place es) (hl : Sorted key l) :
    find key k (Rows.edit key place put es l) = (find place k es).elim (find key k l) put := by
  induction es generalizing l with
  | nil => rfl
  | cons e es ih =>
    have hsplit : find key k l = (find key k (l.takeWhile (key · < place e))).or
        (find key k (l.dropWhile (key · < place e))) := by
      rw [← find_append, List.takeWhile_append_dropWhile]
    have hbehind := lt_of_mem_edit hput hes hl
    rw [Rows.edit, find_append, find_append, find_cons]
    rcases lt_trichotomy k (place e) with hk | hk | hk
    · -- before the change
      have hput' : find key k (put e).toList = none := find_eq_none.mpr fun a ha => by
        rw [hput e a (by simpa using ha)]
        exact hk.ne'
      have hrest : find key k (Rows.edit key place put es
          (skip key (place e) (l.dropWhile (key · < place e)))) = none :=
        find_eq_none.mpr fun a ha => (hk.trans (hbehind a ha)).ne'
      have hdrop : find key k (l.dropWhile (key · < place e)) = none :=
        find_eq_none.mpr fun a ha => (hk.trans_le (hl.le_of_mem_dropWhile a ha)).ne'
      have hnone : find place k es = none :=
        hes.find_of_le hk.le
      rw [hput', hrest, if_neg hk.ne', hnone, hsplit, hdrop]
      simp
    · -- at the change
      subst hk
      have htake : find key (place e) (l.takeWhile (key · < place e)) = none :=
        find_eq_none.mpr fun a ha => (lt_of_mem_takeWhile ha).ne
      have hrest : find key (place e) (Rows.edit key place put es
          (skip key (place e) (l.dropWhile (key · < place e)))) = none :=
        find_eq_none.mpr fun a ha => (hbehind a ha).ne'
      rw [htake, hrest, if_pos rfl]
      cases hone : put e with
      | none => simp [hone]
      | some a => simp [hone, find_cons, hput e a hone]
    · -- behind the change
      have htake : find key k (l.takeWhile (key · < place e)) = none :=
        find_eq_none.mpr fun a ha => ((lt_of_mem_takeWhile ha).trans hk).ne
      have hput' : find key k (put e).toList = none := find_eq_none.mpr fun a ha => by
        rw [hput e a (by simpa using ha)]
        exact hk.ne
      rw [htake, hput', if_neg hk.ne, ih (List.pairwise_cons.mp hes).2
        ((hl.sublist (List.dropWhile_sublist _)).sublist skip_sublist), find_skip hk.ne,
        hsplit, htake]
      simp

end

/-! ## Differences -/

section
variable [DecidableEq α] (key : α → K) (remove set : α → ε)

/-- The changes from one table to another, found from the front of both, in so many steps. -/
def diff : Nat → List α → List α → List ε
  | 0, _, _ => []
  | _ + 1, [], [] => []
  | n + 1, a :: l, [] => remove a :: diff n l []
  | n + 1, [], b :: l' => set b :: diff n [] l'
  | n + 1, a :: l, b :: l' =>
    if key a < key b then remove a :: diff n l (b :: l')
    else if key b < key a then set b :: diff n (a :: l) l'
    else if a = b then diff n l l'
    else set b :: diff n l l'

variable {key remove set} {place : ε → K} {put : ε → Option α} {k : K} {n : Nat} {l l' : List α}

/-- A change is at the key of the row it removes or sets. -/
structure Marks (key : α → K) (place : ε → K) (put : ε → Option α) (remove set : α → ε) : Prop where
  place_remove : ∀ a, place (remove a) = key a
  place_set : ∀ a, place (set a) = key a
  put_remove : ∀ a, put (remove a) = none
  put_set : ∀ a, put (set a) = some a

theorem mem_diff {e : ε} (h : e ∈ diff key remove set n l l') :
    (∃ a ∈ l, e = remove a) ∨ ∃ b ∈ l', e = set b := by
  induction n generalizing l l' with
  | zero => cases h
  | succ n ih =>
    -- the change comes first, or is found behind one of the two rows, or behind both
    have hmono : ∀ {m m'}, m ⊆ l → m' ⊆ l' → e ∈ diff key remove set n m m' →
        (∃ a ∈ l, e = remove a) ∨ ∃ b ∈ l', e = set b := by
      intro m m' hm hm' hmem
      rcases ih hmem with ⟨a, ha, he⟩ | ⟨b, hb, he⟩
      · exact .inl ⟨a, hm ha, he⟩
      · exact .inr ⟨b, hm' hb, he⟩
    match l, l' with
    | [], [] => cases h
    | a :: l, [] =>
      rcases List.mem_cons.mp h with rfl | h
      · exact .inl ⟨a, List.mem_cons_self, rfl⟩
      · exact hmono (List.subset_cons_self ..) (List.Subset.refl _) h
    | [], b :: l' =>
      rcases List.mem_cons.mp h with rfl | h
      · exact .inr ⟨b, List.mem_cons_self, rfl⟩
      · exact hmono (List.Subset.refl _) (List.subset_cons_self ..) h
    | a :: l, b :: l' =>
      rw [diff] at h
      split_ifs at h
      · rcases List.mem_cons.mp h with rfl | h
        · exact .inl ⟨a, List.mem_cons_self, rfl⟩
        · exact hmono (List.subset_cons_self ..) (List.Subset.refl _) h
      · rcases List.mem_cons.mp h with rfl | h
        · exact .inr ⟨b, List.mem_cons_self, rfl⟩
        · exact hmono (List.Subset.refl _) (List.subset_cons_self ..) h
      · exact hmono (List.subset_cons_self ..) (List.subset_cons_self ..) h
      · rcases List.mem_cons.mp h with rfl | h
        · exact .inr ⟨b, List.mem_cons_self, rfl⟩
        · exact hmono (List.subset_cons_self ..) (List.subset_cons_self ..) h

section
variable (hmarks : Marks key place put remove set)
include hmarks

/-- Changes between tables above a key are above it. -/
theorem lt_of_mem_diff {e : ε} (h : e ∈ diff key remove set n l l') (hl : ∀ a ∈ l, k < key a)
    (hl' : ∀ b ∈ l', k < key b) : k < place e := by
  rcases mem_diff h with ⟨a, ha, rfl⟩ | ⟨b, hb, rfl⟩
  · rw [hmarks.place_remove]
    exact hl a ha
  · rw [hmarks.place_set]
    exact hl' b hb

theorem sorted_diff (hl : Sorted key l) (hl' : Sorted key l') :
    Sorted place (diff key remove set n l l') := by
  induction n generalizing l l' with
  | zero => exact .nil
  | succ n ih =>
    match l, l' with
    | [], [] => exact .nil
    | a :: l, [] =>
      obtain ⟨ha, hl⟩ := List.pairwise_cons.mp hl
      refine List.pairwise_cons.mpr ⟨fun e he => ?_, ih hl hl'⟩
      rw [hmarks.place_remove]
      exact lt_of_mem_diff hmarks he ha (by simp)
    | [], b :: l' =>
      obtain ⟨hb, hl'⟩ := List.pairwise_cons.mp hl'
      refine List.pairwise_cons.mpr ⟨fun e he => ?_, ih hl hl'⟩
      rw [hmarks.place_set]
      exact lt_of_mem_diff hmarks he (by simp) hb
    | a :: l, b :: l' =>
      obtain ⟨ha, hl₀⟩ := List.pairwise_cons.mp hl
      obtain ⟨hb, hl₀'⟩ := List.pairwise_cons.mp hl'
      rw [diff]
      split_ifs with hab hba heq
      · refine List.pairwise_cons.mpr ⟨fun e he => ?_, ih hl₀ hl'⟩
        rw [hmarks.place_remove]
        exact lt_of_mem_diff hmarks he ha
          (List.forall_mem_cons.mpr ⟨hab, fun x hx => hab.trans (hb x hx)⟩)
      · refine List.pairwise_cons.mpr ⟨fun e he => ?_, ih hl hl₀'⟩
        rw [hmarks.place_set]
        exact lt_of_mem_diff hmarks he
          (List.forall_mem_cons.mpr ⟨hba, fun x hx => hba.trans (ha x hx)⟩) hb
      · exact ih hl₀ hl₀'
      · have hkey : key a = key b := le_antisymm (not_lt.mp hba) (not_lt.mp hab)
        refine List.pairwise_cons.mpr ⟨fun e he => ?_, ih hl₀ hl₀'⟩
        rw [hmarks.place_set]
        exact lt_of_mem_diff hmarks he (hkey ▸ ha) hb

/-- Exactly the keys at which the tables differ are listed, with what the second one holds. -/
theorem find_diff (hl : Sorted key l) (hl' : Sorted key l') (hn : l.length + l'.length ≤ n) :
    (find place k (diff key remove set n l l')).map put =
      if find key k l = find key k l' then none else some (find key k l') := by
  induction n generalizing l l' with
  | zero =>
    obtain rfl : l = [] := List.length_eq_zero_iff.mp (by omega)
    obtain rfl : l' = [] := List.length_eq_zero_iff.mp (by omega)
    simp [diff]
  | succ n ih =>
    match l, l' with
    | [], [] => simp [diff]
    | a :: l, [] =>
      have hrest := ih (List.pairwise_cons.mp hl).2 hl' (by simp at hn ⊢; omega)
      rw [diff, find_cons, hmarks.place_remove, find_cons]
      split
      · simp [hmarks.put_remove]
      · exact hrest
    | [], b :: l' =>
      have hrest := ih hl (List.pairwise_cons.mp hl').2 (by simp at hn ⊢; omega)
      rw [diff, find_cons, hmarks.place_set, find_cons]
      split
      · simp [hmarks.put_set]
      · exact hrest
    | a :: l, b :: l' =>
      obtain ⟨ha, hl₀⟩ := List.pairwise_cons.mp hl
      obtain ⟨hb, hl₀'⟩ := List.pairwise_cons.mp hl'
      simp only [List.length_cons] at hn
      rcases lt_trichotomy (key a) (key b) with hab | hab | hab
      · -- a row that the second table does not hold
        rw [diff, if_pos hab, find_cons, hmarks.place_remove, @find_cons _ _ _ key k a l]
        split
        · next hk =>
          subst hk
          have hnone : find key (key a) (b :: l') = none := find_eq_none.mpr <|
            List.forall_mem_cons.mpr ⟨hab.ne', fun x hx => (hab.trans (hb x hx)).ne'⟩
          simp [hnone, hmarks.put_remove]
        · exact ih hl₀ hl' (by simp only [List.length_cons]; omega)
      · by_cases heq : a = b
        · -- a row that both hold
          subst heq
          rw [diff, if_neg (lt_irrefl _), if_neg (lt_irrefl _), if_pos rfl, find_cons, find_cons,
            ih hl₀ hl₀' (by omega)]
          by_cases hk : key a = k
          · subst hk
            simp [hl.find_of_le le_rfl, hl'.find_of_le le_rfl]
          · simp [hk]
        · -- a row that both hold with different contents
          rw [diff, if_neg hab.not_lt, if_neg hab.not_gt, if_neg heq, find_cons, hmarks.place_set,
            @find_cons _ _ _ key k a l, @find_cons _ _ _ key k b l', hab]
          split
          · simp [hmarks.put_set, heq]
          · exact ih hl₀ hl₀' (by omega)
      · -- a row that the first table does not hold
        rw [diff, if_neg hab.not_gt, if_pos hab, find_cons, hmarks.place_set,
          @find_cons _ _ _ key k b l']
        split
        · next hk =>
          subst hk
          have hnone : find key (key b) (a :: l) = none := find_eq_none.mpr <|
            List.forall_mem_cons.mpr ⟨hab.ne', fun x hx => (hab.trans (ha x hx)).ne'⟩
          simp [hnone, hmarks.put_set]
        · exact ih hl hl₀' (by simp only [List.length_cons]; omega)

/-- The changes found lead from the first table to the second. -/
theorem edit_diff (hput : Placed key place put) (hl : Sorted key l) (hl' : Sorted key l')
    (hn : l.length + l'.length ≤ n) : edit key place put (diff key remove set n l l') l = l' := by
  have hdiff := sorted_diff hmarks (n := n) hl hl'
  refine (Sorted.edit hput hdiff hl).ext hl' fun k => ?_
  have hfind := find_diff hmarks (k := k) hl hl' hn
  rw [find_edit hput hdiff hl]
  cases h : find place k (diff key remove set n l l') with
  | none =>
    rw [h, Option.map_none] at hfind
    split at hfind
    · next heq => exact heq
    · cases hfind
  | some e =>
    rw [h, Option.map_some] at hfind
    split at hfind
    · cases hfind
    · exact Option.some.inj hfind

end

end

end Lib.Rows
