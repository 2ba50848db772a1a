import Mathlib.Data.List.Basic

/-!
# Computations that may fail

What a computation in `Except` did when it returns a value.
-/

namespace Lib

variable {E α β : Type} {x : Except E α} {f : α → Except E β} {l : List α} {b : β}

@[simp] theorem bind_eq_ok : (x >>= f) = .ok b ↔ ∃ a, x = .ok a ∧ f a = .ok b := by
  cases x <;> simp [bind, Except.bind]

@[simp] theorem pure_eq_ok {a b : α} : (pure a : Except E α) = .ok b ↔ a = b := by
  simp [pure, Except.pure]

/-- A continuation matters only on the value that was returned. -/
theorem bind_congr_ok {f g : α → Except E β} (h : ∀ a, x = .ok a → f a = g a) :
    (x >>= f) = (x >>= g) := by
  cases x with
  | error e => rfl
  | ok a => exact h a rfl

def require (p : Prop) [Decidable p] (e : E) : Except E Unit := if p then .ok () else .error e

variable {e : E}

@[simp] theorem require_eq_ok {p : Prop} [Decidable p] {u : Unit} : require p e = .ok u ↔ p := by
  unfold require
  split <;> simp [*]

def getOr (x : Option α) (e : E) : Except E α := x.elim (.error e) .ok

variable {a : α}

@[simp] theorem getOr_eq_ok {x : Option α} : getOr x e = .ok a ↔ x = some a := by
  unfold getOr
  cases x <;> simp

def errorOf : Except E α → Option E
  | .ok _ => none
  | .error e => some e

@[simp] theorem errorOf_ok : errorOf (.ok a : Except E α) = none := rfl

@[simp] theorem errorOf_error : errorOf (.error e : Except E α) = some e := rfl

theorem errorOf_eq_none : errorOf x = none ↔ ∃ a, x = .ok a := by
  cases x <;> simp [errorOf]

theorem errorOf_eq_some : errorOf x = some e ↔ x = .error e := by
  cases x <;> simp [errorOf]

@[simp] theorem errorOf_bind_pure {f : α → β} :
    errorOf (x >>= fun a => pure (f a)) = errorOf x := by
  cases x <;> rfl

theorem map_eq_ok {f : α → β} : x.map f = .ok b ↔ ∃ a, x = .ok a ∧ f a = b := by
  cases x <;> simp [Except.map]

@[simp] theorem mapError_eq_ok {F : Type} {f : E → F} : x.mapError f = .ok a ↔ x = .ok a := by
  cases x <;> simp [Except.mapError]

theorem bind_ne_error (hx : x ≠ .error e) (hf : ∀ a, f a ≠ .error e) : (x >>= f) ≠ .error e := by
  cases x with
  | error e' => simpa [bind, Except.bind] using hx
  | ok a => exact hf a

theorem require_ne_error {p : Prop} [Decidable p] {e e' : E} (h : p ∨ e' ≠ e) :
    require p e' ≠ .error e := by
  unfold require
  split <;> simp_all

theorem mapError_ne_error {F : Type} {f : E → F} {e : F} (h : ∀ e', f e' ≠ e) :
    x.mapError f ≠ .error e := by
  cases x <;> simp [Except.mapError, h]

theorem toOption_eq_some : x.toOption = some a ↔ x = .ok a := by
  cases x <;> simp [Except.toOption]

/-- A sequence of computations fails with the first error. -/
theorem mapM_eq_error : l.mapM f = .error e ↔ l.findSome? (fun a => errorOf (f a)) = some e := by
  induction l with
  | nil => simp [pure, Except.pure]
  | cons a l ih =>
    rw [List.mapM_cons, List.findSome?_cons]
    cases h : f a with
    | error e' => simp [bind, Except.bind]
    | ok b =>
      cases hl : l.mapM f with
      | error e' => simpa [bind, Except.bind, hl] using ih
      | ok bs => simpa [bind, Except.bind, pure, Except.pure, hl] using ih

theorem mapM_eq_ok {g : α → β} (h : ∀ a ∈ l, f a = .ok (g a)) : l.mapM f = .ok (l.map g) := by
  induction l with
  | nil => rfl
  | cons a l ih =>
    rw [List.mapM_cons, h a List.mem_cons_self, ih fun b hb => h b (List.mem_cons_of_mem _ hb)]
    rfl

theorem exists_mapM_eq_ok : (∃ bs, l.mapM f = .ok bs) ↔ ∀ a ∈ l, ∃ b, f a = .ok b := by
  induction l with
  | nil => simp
  | cons a l ih =>
    simp only [List.mapM_cons, bind_eq_ok, pure_eq_ok, List.forall_mem_cons, ← ih]
    constructor
    · rintro ⟨_, b, hb, bs, hbs, -⟩
      exact ⟨⟨b, hb⟩, bs, hbs⟩
    · rintro ⟨⟨b, hb⟩, bs, hbs⟩
      exact ⟨_, b, hb, bs, hbs, rfl⟩

variable {bs : List β}

/-- What a sequence of computations returned, element by element. -/
theorem map_of_mapM {g : α → β} (h : l.mapM f = .ok bs)
    (hg : ∀ a ∈ l, ∀ b, f a = .ok b → g a = b) : bs = l.map g := by
  induction l generalizing bs with
  | nil => exact (Except.ok.inj h).symm
  | cons a l ih =>
    simp only [List.mapM_cons, bind_eq_ok, pure_eq_ok] at h
    obtain ⟨b, hb, bs, hbs, rfl⟩ := h
    obtain ⟨hhead, htail⟩ := List.forall_mem_cons.mp hg
    rw [List.map_cons, hhead b hb, ← ih hbs htail]

/-- A sequence of computations that succeeds has succeeded at every element. -/
theorem forall₂_of_mapM (h : l.mapM f = .ok bs) : List.Forall₂ (fun a b => f a = .ok b) l bs := by
  induction l generalizing bs with
  | nil =>
    cases h
    exact .nil
  | cons a l ih =>
    rw [List.mapM_cons] at h
    simp only [bind_eq_ok, pure_eq_ok] at h
    obtain ⟨b, hb, bs, hbs, rfl⟩ := h
    exact .cons hb (ih hbs)

theorem exists_of_mem_mapM (h : l.mapM f = .ok bs) (hb : b ∈ bs) : ∃ a ∈ l, f a = .ok b := by
  have hall := forall₂_of_mapM h
  clear h
  induction hall with
  | nil => cases hb
  | cons hhead _ ih =>
    rcases List.mem_cons.mp hb with rfl | hb
    · exact ⟨_, List.mem_cons_self, hhead⟩
    · obtain ⟨a, ha, hf⟩ := ih hb
      exact ⟨a, List.mem_cons_of_mem _ ha, hf⟩

theorem mapM_congr {f g : α → Except E β} (h : ∀ a ∈ l, f a = g a) : l.mapM f = l.mapM g := by
  induction l with
  | nil => rfl
  | cons a l ih =>
    rw [List.mapM_cons, List.mapM_cons, h a List.mem_cons_self,
      ih fun b hb => h b (List.mem_cons_of_mem _ hb)]

/-- Two loops agree when their rounds agree under an invariant that the rounds keep. -/
theorem foldlM_congr {γ : Type} {f : β → α → Except E β} {g : β → γ → Except E β} {h : α → γ}
    {P : β → Prop} (hb : P b) (heq : ∀ a ∈ l, ∀ b, P b → f b a = g b (h a))
    (hstep : ∀ a ∈ l, ∀ b b', P b → f b a = .ok b' → P b') :
    l.foldlM f b = (l.map h).foldlM g b := by
  induction l generalizing b with
  | nil => rfl
  | cons a l ih =>
    obtain ⟨ha, hl⟩ := List.forall_mem_cons.mp heq
    obtain ⟨hsa, hsl⟩ := List.forall_mem_cons.mp hstep
    rw [List.map_cons, List.foldlM_cons, List.foldlM_cons, ← ha b hb]
    exact bind_congr_ok fun b' hb' => ih (hsa b b' hb hb') hl hsl

@[simp] theorem forM_eq_ok {f : α → Except E Unit} {u : Unit} :
    forM l f = .ok u ↔ ∀ a ∈ l, f a = .ok () := by
  induction l with
  | nil => simp
  | cons a l ih =>
    rw [List.forM_cons, bind_eq_ok, List.forall_mem_cons, ← ih]
    exact ⟨fun ⟨_, ha, hl⟩ => ⟨ha, hl⟩, fun ⟨ha, hl⟩ => ⟨(), ha, hl⟩⟩

theorem forM_congr {f g : α → Except E Unit} (h : ∀ a ∈ l, f a = g a) : forM l f = forM l g := by
  induction l with
  | nil => rfl
  | cons a l ih =>
    rw [List.forM_cons, List.forM_cons, h a List.mem_cons_self,
      ih fun b hb => h b (List.mem_cons_of_mem _ hb)]

theorem bind_of_ok (h : x = .ok a) : (x >>= f) = f a := by
  rw [h]
  rfl

end Lib
