import Mathlib.Data.List.Pairwise

/-!
# Traces

A trace is a list of turns, each with the state before it, what was done and the state after it,
linked from a first to a last state. Invariants are proved turn by turn, and a statement about any
two turns of a trace by looking at the trace between them.
-/

namespace Lib

structure Turn (S L : Type) where
  before : S
  label : L
  after : S

variable {S L : Type} {s s' m : S} {t u : Turn S L} {ts a b c : List (Turn S L)}

/-- What holds of every element and those before it, when one more element is put at the end. -/
theorem forall_split_snoc {α : Type} {P : List α → α → Prop} {l : List α} {x : α}
    (h : ∀ a v b, l = a ++ v :: b → P a v) (hx : P l x) :
    ∀ a v b, l ++ [x] = a ++ v :: b → P a v := by
  intro a v b heq
  rcases List.eq_nil_or_concat b with rfl | ⟨b, y, rfl⟩
  · obtain ⟨rfl, hv⟩ := List.append_inj' heq rfl
    cases hv
    exact hx
  · rw [List.concat_eq_append, ← List.cons_append, ← List.append_assoc] at heq
    exact h a v b (List.append_inj' heq rfl).1

/-- Consecutive elements among those with `p` are all those of some interval. -/
theorem exists_infix_filter {α : Type} {p : α → Prop} [DecidablePred p] {l part : List α}
    (h : part <:+: l.filter p) : ∃ interval, interval <:+: l ∧ interval.filter p = part := by
  obtain ⟨front, back, h⟩ := h
  obtain ⟨l₁, l₂, rfl, h₁, -⟩ := List.filter_eq_append_iff.mp h.symm
  obtain ⟨l₃, l₄, rfl, -, rfl⟩ := List.filter_eq_append_iff.mp h₁
  exact ⟨l₄, ⟨l₃, l₂, rfl⟩, rfl⟩

/-! ## Repetition -/

section
variable {α : Type} {P R : α → Prop} {l : List α} {x : α}

/-- Some element has `P`, and none after it has `R`. -/
def Since (P R : α → Prop) (l : List α) : Prop :=
  ∃ a x b, l = a ++ x :: b ∧ P x ∧ ∀ y ∈ b, ¬ R y

/-- Two elements have `P`, and none between them has `R`. -/
def Repeats (P R : α → Prop) (l : List α) : Prop :=
  ∃ a x b, l = a ++ x :: b ∧ P x ∧ Since P R a

theorem not_since_nil : ¬ Since P R [] := by
  rintro ⟨a, x, b, h, -⟩
  simp at h

theorem not_repeats_nil : ¬ Repeats P R [] := by
  rintro ⟨a, x, b, h, -⟩
  simp at h

theorem since_snoc (h : Since P R (l ++ [x])) : P x ∨ ¬ R x ∧ Since P R l := by
  obtain ⟨a, y, b, heq, hP, hR⟩ := h
  rcases List.eq_nil_or_concat b with rfl | ⟨b, z, rfl⟩
  · obtain ⟨rfl, hv⟩ := List.append_inj' heq rfl
    cases hv
    exact .inl hP
  · rw [List.concat_eq_append] at heq hR
    rw [← List.cons_append, ← List.append_assoc] at heq
    obtain ⟨rfl, hv⟩ := List.append_inj' heq rfl
    cases hv
    exact .inr ⟨hR x (by simp), a, y, b, rfl, hP, fun z hz => hR z (by simp [hz])⟩

theorem repeats_snoc (h : Repeats P R (l ++ [x])) : Repeats P R l ∨ P x ∧ Since P R l := by
  obtain ⟨a, y, b, heq, hP, hsince⟩ := h
  rcases List.eq_nil_or_concat b with rfl | ⟨b, z, rfl⟩
  · obtain ⟨rfl, hv⟩ := List.append_inj' heq rfl
    cases hv
    exact .inr ⟨hP, hsince⟩
  · rw [List.concat_eq_append, ← List.cons_append, ← List.append_assoc] at heq
    obtain ⟨rfl, -⟩ := List.append_inj' heq rfl
    exact .inl ⟨a, y, b, rfl, hP, hsince⟩

end

end Lib
