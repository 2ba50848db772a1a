import Mathlib.Data.List.Sort
import Trillionnium.Lib.Bytes

/-!
# Canonical order

A list sorted by a key that tells its values apart depends on the list only up to order. The
concatenation of codes of one width determines the codes, and that of pieces of known lengths the
pieces.
-/

namespace Lib

variable {α K : Type} [LinearOrder K] {key : α → K} {l l' : List α}

def sortedBy (key : α → K) (l : List α) : List α := l.insertionSort fun a b => key a ≤ key b

theorem perm_sortedBy : (sortedBy key l).Perm l := List.perm_insertionSort _ l

/-- Lists have one canonical order exactly when they are equal up to order. -/
theorem sortedBy_eq_iff (hkey : key.Injective) : sortedBy key l = sortedBy key l' ↔ l.Perm l' := by
  have : Std.Total fun a b : α => key a ≤ key b := ⟨fun a b => le_total (key a) (key b)⟩
  have : IsTrans α fun a b => key a ≤ key b := ⟨fun _ _ _ => le_trans⟩
  have : Std.Antisymm fun a b : α => key a ≤ key b := ⟨fun _ _ h h' => hkey (le_antisymm h h')⟩
  constructor
  · intro h
    have hperm := @perm_sortedBy α K _ key l
    rw [h] at hperm
    exact hperm.symm.trans perm_sortedBy
  · intro h
    exact List.Perm.eq_of_pairwise' (List.pairwise_insertionSort _ l)
      (List.pairwise_insertionSort _ l') (perm_sortedBy.trans (h.trans perm_sortedBy.symm))

/-- Codes of one width can be read off their concatenation. -/
theorem map_eq_of_flatMap_eq {code : α → Bytes} (hw : 0 < w) (hcode : ∀ a, (code a).length = w)
    (h : l.flatMap code = l'.flatMap code) : l.map code = l'.map code := by
  induction l generalizing l' with
  | nil =>
    cases l' with
    | nil => rfl
    | cons b l' =>
      have hlen := congrArg List.length h
      simp only [List.flatMap_nil, List.length_nil, List.flatMap_cons, List.length_append,
        hcode] at hlen
      omega
  | cons a l ih =>
    cases l' with
    | nil =>
      have hlen := congrArg List.length h
      simp only [List.flatMap_nil, List.length_nil, List.flatMap_cons, List.length_append,
        hcode] at hlen
      omega
    | cons b l' =>
      simp only [List.flatMap_cons] at h
      obtain ⟨hhead, htail⟩ := List.append_inj h (by rw [hcode, hcode])
      rw [List.map_cons, List.map_cons, hhead, ih htail]

/-- Values written as pieces, one value after another, can be told apart where the lengths of the
pieces are known. -/
theorem flatMap_pieces_inj {pieces : α → List Bytes} (hpieces : pieces.Injective)
    (hlengths : l.map (fun a => (pieces a).map List.length) = l'.map fun a =>
      (pieces a).map List.length)
    (h : l.flatMap (fun a => (pieces a).flatten) ++ x =
      l'.flatMap (fun a => (pieces a).flatten) ++ y) :
    l = l' ∧ x = y := by
  induction l generalizing l' with
  | nil =>
    obtain rfl := List.map_eq_nil_iff.mp hlengths.symm
    exact ⟨rfl, h⟩
  | cons a l ih =>
    cases l' with
    | nil => cases hlengths
    | cons b l' =>
      simp only [List.map_cons, List.cons.injEq] at hlengths
      obtain ⟨hlength, hlengths⟩ := hlengths
      simp only [List.flatMap_cons, List.append_assoc] at h
      obtain ⟨hflatten, h⟩ := List.append_inj h
        (by rw [List.length_flatten, hlength, List.length_flatten])
      obtain ⟨rfl, hrest⟩ := ih hlengths h
      exact ⟨congrArg (· :: l) (hpieces (List.eq_iff_flatten_eq.mpr ⟨hflatten, hlength⟩)), hrest⟩

theorem eq_of_map_eq {β : Type} {f : α → β} (hf : ∀ a ∈ l, ∀ b ∈ l', f a = f b → a = b)
    (h : l.map f = l'.map f) : l = l' := by
  induction l generalizing l' with
  | nil => exact (List.map_eq_nil_iff.mp h.symm).symm
  | cons a l ih =>
    cases l' with
    | nil => cases h
    | cons b l' =>
      obtain ⟨hhead, htail⟩ := List.cons.inj h
      rw [hf a List.mem_cons_self b List.mem_cons_self hhead, ih (fun a ha b hb =>
        hf a (List.mem_cons_of_mem _ ha) b (List.mem_cons_of_mem _ hb)) htail]

/-- The sorted codes of two lists agree exactly when the lists are equal up to order, where the
codes tell their values apart. -/
theorem flatMap_sortedBy_eq_iff {code : α → Bytes} (hkey : key.Injective) (hw : 0 < w)
    (hcode : ∀ a, (code a).length = w) (hinj : ∀ a ∈ l, ∀ b ∈ l', code a = code b → a = b) :
    (sortedBy key l).flatMap code = (sortedBy key l').flatMap code ↔ l.Perm l' := by
  constructor
  · intro h
    refine (sortedBy_eq_iff hkey).mp (eq_of_map_eq ?_ (map_eq_of_flatMap_eq hw hcode h))
    intro a ha b hb
    exact hinj a (perm_sortedBy.mem_iff.mp ha) b (perm_sortedBy.mem_iff.mp hb)
  · intro h
    rw [(sortedBy_eq_iff hkey).mpr h]

end Lib
