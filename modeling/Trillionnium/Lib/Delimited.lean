import Mathlib.Data.List.Basic
import Mathlib.Data.Nat.Digits.Defs
import Mathlib.Data.Nat.ModEq

/-!
# Texts joined by a separator

Fields joined by a separator can be told apart when the separator is in none of them. One field may
hold it if all the others do not, since they are counted from the two ends. Texts that each end with
a separator are told apart by their number. Decimal numbers hold digits only.
-/

namespace Lib.Delimited

section
variable {α : Type} {sep : α} {l l' : List (List α)} {x y : List α}

theorem append_cons_inj {xs ys xs' ys' : List α} (hxs : sep ∉ xs) (hxs' : sep ∉ xs')
    (h : xs ++ sep :: ys = xs' ++ sep :: ys') : xs = xs' ∧ ys = ys' := by
  induction xs generalizing xs' with
  | nil =>
    cases xs' with
    | nil => exact ⟨rfl, (List.cons.inj h).2⟩
    | cons c xs' => exact absurd ((List.cons.inj h).1 ▸ List.mem_cons_self) hxs'
  | cons c xs ih =>
    cases xs' with
    | nil => exact absurd ((List.cons.inj h).1 ▸ List.mem_cons_self) hxs
    | cons c' xs' =>
      obtain ⟨rfl, htail⟩ := List.cons.inj h
      obtain ⟨rfl, hys⟩ := ih (List.not_mem_of_not_mem_cons hxs) (List.not_mem_of_not_mem_cons hxs')
        htail
      exact ⟨rfl, hys⟩

/-- Texts that each end with a separator. -/
def terminated (sep : α) (l : List (List α)) : List α := l.flatMap (· ++ [sep])

theorem length_le_terminated : l.length ≤ (terminated sep l).length := by
  induction l with
  | nil => exact Nat.zero_le _
  | cons t l ih =>
    rw [terminated] at ih ⊢
    rw [List.flatMap_cons, List.length_append, List.length_append, List.length_cons,
      List.length_singleton]
    omega

theorem terminated_append_inj (hl : ∀ t ∈ l, sep ∉ t) (hl' : ∀ t ∈ l', sep ∉ t)
    (hlength : l.length = l'.length) (h : terminated sep l ++ x = terminated sep l' ++ y) :
    l = l' ∧ x = y := by
  induction l generalizing l' with
  | nil =>
    obtain rfl := List.length_eq_zero_iff.mp hlength.symm
    exact ⟨rfl, h⟩
  | cons t l ih =>
    cases l' with
    | nil => cases hlength
    | cons t' l' =>
      rw [List.forall_mem_cons] at hl hl'
      simp only [terminated, List.flatMap_cons, List.append_assoc, List.singleton_append] at h
      obtain ⟨rfl, hrest⟩ := append_cons_inj hl.1 hl'.1 h
      obtain ⟨rfl, hxy⟩ := ih hl.2 hl'.2 (Nat.succ.inj hlength) hrest
      exact ⟨rfl, hxy⟩

theorem length_le_of_terminated (hl : ∀ t ∈ l, sep ∉ t) (hl' : ∀ t ∈ l', sep ∉ t)
    (h : terminated sep l ++ x = terminated sep l' ++ y) : l'.length ≤ l.length + x.length := by
  rcases le_total l'.length l.length with hle | hle
  · omega
  have hsplit : terminated sep l' = terminated sep (l'.take l.length) ++
      terminated sep (l'.drop l.length) := by
    rw [terminated, terminated, terminated, ← List.flatMap_append, List.take_append_drop]
  rw [hsplit, List.append_assoc] at h
  have hrest := (terminated_append_inj hl (fun t ht => hl' t (List.mem_of_mem_take ht))
    (by simp [hle]) h).2
  have hdrop := @length_le_terminated _ sep (l'.drop l.length)
  rw [hrest, List.length_append]
  rw [List.length_drop] at hdrop
  omega

/-- The number of texts need only be known modulo a number that is larger than what stands behind
them. -/
theorem terminated_append_inj_of_mod {n : Nat} (hl : ∀ t ∈ l, sep ∉ t) (hl' : ∀ t ∈ l', sep ∉ t)
    (hx : x.length < n) (hy : y.length < n) (hlength : l.length % n = l'.length % n)
    (h : terminated sep l ++ x = terminated sep l' ++ y) : l = l' ∧ x = y := by
  refine terminated_append_inj hl hl' ?_ h
  have hle := length_le_of_terminated hl hl' h
  have hge := length_le_of_terminated hl' hl h.symm
  obtain hlt | heq | hlt := Nat.lt_trichotomy l.length l'.length
  · have := (Nat.modEq_iff_dvd' hlt.le).mp hlength
    have := Nat.le_of_dvd (by omega) this
    omega
  · exact heq
  · have := (Nat.modEq_iff_dvd' hlt.le).mp hlength.symm
    have := Nat.le_of_dvd (by omega) this
    omega

end

/-- The fields with the separator between them. -/
def join (sep : Char) (fields : List String) : String := (String.singleton sep).intercalate fields

variable {sep : Char} {fs gs : List String} {a b x : String} {n m : Nat}

theorem toList_join : (join sep fs).toList = [sep].intercalate (fs.map String.toList) := by
  rw [join, String.toList_intercalate, String.toList_singleton]

theorem splitOn_join (hfs : ∀ f ∈ fs, sep ∉ f.toList) (hne : fs ≠ []) :
    (join sep fs).toList.splitOn sep = fs.map String.toList := by
  rw [toList_join]
  refine List.splitOn_intercalate sep ?_ (by simpa using hne)
  simpa using hfs

theorem eq_of_map_toList (h : fs.map String.toList = gs.map String.toList) : fs = gs :=
  List.map_injective_iff.mpr (fun _ _ => String.toList_inj.mp) h

theorem join_inj (hfs : ∀ f ∈ fs, sep ∉ f.toList) (hgs : ∀ g ∈ gs, sep ∉ g.toList) (hne : fs ≠ [])
    (hne' : gs ≠ []) (h : join sep fs = join sep gs) : fs = gs := by
  have hsplit := congrArg (·.toList.splitOn sep) h
  simp only [splitOn_join hfs hne, splitOn_join hgs hne'] at hsplit
  exact eq_of_map_toList hsplit

theorem toList_join_cons (hne : fs ≠ []) :
    (join sep (a :: fs)).toList = a.toList ++ sep :: (join sep fs).toList := by
  obtain ⟨f, fs, rfl⟩ := List.exists_cons_of_ne_nil hne
  rw [toList_join, toList_join, List.map_cons, List.map_cons, List.intercalate_cons_cons,
    List.append_assoc, List.singleton_append]

/-- A first field that may hold the separator is told by the number of fields after it. -/
theorem join_cons_inj (hfs : ∀ f ∈ fs, sep ∉ f.toList) (hgs : ∀ g ∈ gs, sep ∉ g.toList)
    (hne : fs ≠ []) (hlength : fs.length = gs.length)
    (h : join sep (a :: fs) = join sep (b :: gs)) : a = b ∧ fs = gs := by
  have hne' : gs ≠ [] := by
    rw [← List.length_pos_iff] at hne ⊢
    omega
  have hsplit := congrArg (·.toList.splitOn sep) h
  simp only [toList_join_cons hne, toList_join_cons hne', List.splitOn_append_cons_self,
    splitOn_join hfs hne, splitOn_join hgs hne'] at hsplit
  obtain ⟨hfirst, hrest⟩ := List.append_inj' hsplit (by simpa using hlength)
  refine ⟨String.toList_inj.mp ?_, eq_of_map_toList hrest⟩
  calc a.toList = [sep].intercalate (a.toList.splitOn sep) := (List.intercalate_splitOn sep).symm
    _ = [sep].intercalate (b.toList.splitOn sep) := by rw [hfirst]
    _ = b.toList := List.intercalate_splitOn sep

/-- A first field without the separator ends at the first separator. -/
theorem join_cons_inj_of_not_mem (ha : sep ∉ a.toList) (hb : sep ∉ b.toList) (hne : fs ≠ [])
    (hne' : gs ≠ []) (h : join sep (a :: fs) = join sep (b :: gs)) :
    a = b ∧ join sep fs = join sep gs := by
  have htexts := congrArg String.toList h
  rw [toList_join_cons hne, toList_join_cons hne'] at htexts
  obtain ⟨hfirst, hrest⟩ := append_cons_inj ha hb htexts
  exact ⟨String.toList_inj.mp hfirst, String.toList_inj.mp hrest⟩

theorem tail_of_join_cons (hne : fs ≠ []) (hne' : gs ≠ [])
    (h : join sep (x :: fs) = join sep (x :: gs)) : join sep fs = join sep gs := by
  have htexts := congrArg String.toList h
  rw [toList_join_cons hne, toList_join_cons hne'] at htexts
  exact String.toList_inj.mp (List.cons_inj_right _ |>.mp (List.append_cancel_left htexts))

/-! ## Decimal numbers -/

theorem not_mem_decimal (hsep : sep.isDigit = false) : sep ∉ (toString n).toList := by
  intro hmem
  have hdigit := Nat.isDigit_of_mem_toDigits (by decide) (le_refl 10) (Nat.toList_repr ▸ hmem)
  rw [hsep] at hdigit
  cases hdigit

theorem ofDigitChars_decimal : Nat.ofDigitChars 10 (toString n).toList 0 = n := by
  rw [show (toString n).toList = Nat.toDigits 10 n from Nat.toList_repr]
  exact Nat.ofDigitChars_ten_toDigits

theorem decimal_inj (h : toString n = toString m) : n = m := by
  calc n = Nat.ofDigitChars 10 (toString n).toList 0 := ofDigitChars_decimal.symm
    _ = Nat.ofDigitChars 10 (toString m).toList 0 := by rw [h]
    _ = m := ofDigitChars_decimal

end Lib.Delimited
