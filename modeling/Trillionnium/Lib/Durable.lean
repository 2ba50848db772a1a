import Mathlib.Data.List.Basic
import Mathlib.Logic.Relation

/-!
# Procedures over a durable store

A procedure runs transactions on a store. A transaction commits as a whole or leaves the store as it
was, so a procedure that stops leaves one of the stores it committed, or the one it found. A
procedure resumes if, started again on a store it committed, it makes the commits that were left.
However often such a procedure is stopped and started again, it ends as if it had not been.
-/

namespace Lib

variable {E S α β : Type}

/-- The stores a procedure commits, in order, and how it ends. -/
structure Outcome (E S α : Type) where
  commits : List S
  result : Except E α

/-- The store that is left. -/
def Outcome.last (o : Outcome E S α) (s : S) : S := o.commits.getLastD s

/-- A procedure, by its outcome on a store. -/
@[ext]
structure Proc (E S α : Type) where
  run : S → Outcome E S α

namespace Proc

instance : Monad (Proc E S) where
  pure a := ⟨fun _ => ⟨[], .ok a⟩⟩
  bind x f := ⟨fun s =>
    match (x.run s).result with
    | .ok a =>
      ⟨(x.run s).commits ++ ((f a).run ((x.run s).last s)).commits,
        ((f a).run ((x.run s).last s)).result⟩
    | .error e => ⟨(x.run s).commits, .error e⟩⟩

/-- Read the store. -/
def query (f : S → Except E α) : Proc E S α := ⟨fun s => ⟨[], f s⟩⟩

/-- Change the store and commit, or roll back. -/
def transact (f : S → Except E S) : Proc E S Unit := ⟨fun s =>
  match f s with
  | .ok s' => ⟨[s'], .ok ()⟩
  | .error e => ⟨[], .error e⟩⟩

variable {x : Proc E S α} {g : α → Proc E S β} {s s' : S} {a : α}

theorem bind_of_ok (h : (x.run s).result = .ok a) : (x >>= g).run s =
    ⟨(x.run s).commits ++ ((g a).run ((x.run s).last s)).commits,
      ((g a).run ((x.run s).last s)).result⟩ := by
  show (match (x.run s).result with | .ok a => _ | .error e => _) = _
  rw [h]

theorem query_bind (f : S → Except E α) (h : f s = .ok a) : (query f >>= g).run s = (g a).run s :=
  bind_of_ok h

theorem read_bind {f : S → α} : ((query fun s => .ok (f s)) >>= g).run s = (g (f s)).run s := rfl

theorem transact_bind (f : S → Except E S) {g : Unit → Proc E S β} (h : f s = .ok s') :
    (transact f >>= g).run s = ⟨s' :: ((g ()).run s').commits, ((g ()).run s').result⟩ := by
  have hx : (transact f).run s = ⟨[s'], .ok ()⟩ := by simp only [transact, h]
  rw [bind_of_ok (a := ()) (by rw [hx]), hx]
  rfl

theorem last_cons {l : List S} {r : Except E α} :
    (⟨s' :: l, r⟩ : Outcome E S α).last s = (⟨l, r⟩ : Outcome E S α).last s' :=
  List.getLastD_cons ..

theorem bind_of_error {e : E} (h : (x.run s).result = .error e) :
    (x >>= g).run s = ⟨(x.run s).commits, .error e⟩ := by
  show (match (x.run s).result with | .ok a => _ | .error e => _) = _
  rw [h]

theorem last_append (o : Outcome E S β) {l : List S} {r : Except E α} :
    (⟨o.commits ++ l, r⟩ : Outcome E S α).last s = (⟨l, r⟩ : Outcome E S α).last (o.last s) := by
  obtain ⟨commits, result⟩ := o
  induction commits generalizing s with
  | nil => rfl
  | cons s' commits ih =>
    rw [List.cons_append, last_cons, last_cons]
    exact ih

theorem bind_assoc {γ : Type} {k : β → Proc E S γ} :
    (x >>= g) >>= k = x >>= fun a => g a >>= k := by
  ext1
  funext s
  cases hx : (x.run s).result with
  | error e =>
    have hxg := bind_of_error (g := g) hx
    rw [bind_of_error (x := x) hx, bind_of_error (x := x >>= g) (e := e) (by rw [hxg]), hxg]
  | ok a =>
    have hxg := bind_of_ok (g := g) hx
    have hlast : ((x >>= g).run s).last s =
        ((g a).run ((x.run s).last s)).last ((x.run s).last s) := by
      rw [hxg, last_append (x.run s)]
    rw [bind_of_ok (x := x) hx]
    cases hg : ((g a).run ((x.run s).last s)).result with
    | error e =>
      rw [bind_of_error (x := x >>= g) (e := e) (by rw [hxg, hg]), bind_of_error hg, hxg]
    | ok b =>
      rw [bind_of_ok (x := x >>= g) (a := b) (by rw [hxg, hg]), bind_of_ok hg, hlast, hxg,
        List.append_assoc]

/-! ## Stopping and starting again -/

/-- The store that a stop of the procedure may leave. -/
def Stops (x : Proc E S α) (s s' : S) : Prop := s' ∈ s :: (x.run s).commits

theorem stops_last : Stops x s ((x.run s).last s) := by
  rw [Stops, Outcome.last, List.getLastD_eq_getLast?]
  cases hlast : (x.run s).commits.getLast? with
  | none => exact List.mem_cons_self
  | some t => exact List.mem_cons_of_mem _ (List.mem_of_getLast? hlast)

theorem Stops.bind (h : Stops (x >>= g) s s') :
    Stops x s s' ∨ ∃ a, (x.run s).result = .ok a ∧ Stops (g a) ((x.run s).last s) s' := by
  cases hx : (x.run s).result with
  | error e =>
    rw [Stops, bind_of_error hx] at h
    exact .inl h
  | ok a =>
    rw [Stops, bind_of_ok hx, List.mem_cons, List.mem_append] at h
    rcases h with rfl | h | h
    · exact .inl List.mem_cons_self
    · exact .inl (List.mem_cons_of_mem _ h)
    · exact .inr ⟨a, rfl, List.mem_cons_of_mem _ h⟩

theorem Stops.pure (h : Stops (Pure.pure a : Proc E S α) s s') : s' = s := List.mem_singleton.mp h

theorem Stops.query {f : S → Except E α} (h : Stops (query f) s s') :
    s' = s := List.mem_singleton.mp h

theorem Stops.query_bind {f : S → Except E α} (h : Stops (Proc.query f >>= g) s s') :
    s' = s ∨ ∃ a, f s = .ok a ∧ Stops (g a) s s' := by
  rcases h.bind with h | ⟨a, ha, h⟩
  · exact .inl h.query
  · exact .inr ⟨a, ha, h⟩

theorem Stops.transact_bind {f : S → Except E S} {g : Unit → Proc E S β}
    (h : Stops (transact f >>= g) s s') : s' = s ∨ ∃ t, f s = .ok t ∧ Stops (g ()) t s' := by
  cases hf : f s with
  | error e =>
    have hx : (transact f).run s = ⟨[], .error e⟩ := by simp only [transact, hf]
    rw [Stops, bind_of_error (e := e) (by rw [hx]), hx] at h
    exact .inl (List.mem_singleton.mp h)
  | ok t =>
    rw [Stops, Proc.transact_bind _ hf] at h
    rcases List.mem_cons.mp h with h | h
    · exact .inl h
    · exact .inr ⟨t, rfl, h⟩

/-- On a store with `P`, the procedure has nothing to commit, or makes one commit and goes on as if
started on that. -/
def Resumes (x : Proc E S α) (P : S → Prop) : Prop :=
  ∀ s, P s → (x.run s).commits = [] ∨ ∃ s', P s' ∧ x.run s = ⟨s' :: (x.run s').commits,
    (x.run s').result⟩

variable {P : S → Prop}

/-- The procedure leaves a store on which it has nothing to do. -/
theorem Resumes.ends (h : Resumes x P) (hs : P s) :
    P ((x.run s).last s) ∧ (x.run ((x.run s).last s)).commits = [] ∧
      (x.run ((x.run s).last s)).result = (x.run s).result := by
  generalize hn : (x.run s).commits.length = n
  induction n generalizing s with
  | zero =>
    have hnil := List.length_eq_zero_iff.mp hn
    have hlast : (x.run s).last s = s := by rw [Outcome.last, hnil]; rfl
    rw [hlast]
    exact ⟨hs, hnil, rfl⟩
  | succ n ih =>
    rcases h s hs with hnil | ⟨s₁, hs₁, hx⟩
    · rw [hnil] at hn
      cases hn
    · rw [hx] at hn
      have hlast : (x.run s).last s = (x.run s₁).last s₁ := by rw [hx, last_cons]
      rw [hlast]
      obtain ⟨hP, hnil, hresult⟩ := ih hs₁ (Nat.succ.inj hn)
      exact ⟨hP, hnil, by rw [hresult, hx]⟩

theorem Resumes.stops (h : Resumes x P) (hs : P s) (hstop : Stops x s s') :
    P s' ∧ (x.run s').last s' = (x.run s).last s ∧ (x.run s').result = (x.run s).result := by
  -- by induction on the commits left to make
  generalize hn : (x.run s).commits.length = n
  induction n generalizing s with
  | zero =>
    rw [Stops, List.length_eq_zero_iff.mp hn, List.mem_singleton] at hstop
    subst hstop
    exact ⟨hs, rfl, rfl⟩
  | succ n ih =>
    rcases h s hs with hnil | ⟨s₁, hs₁, hx⟩
    · rw [hnil] at hn
      cases hn
    · rcases List.mem_cons.mp hstop with rfl | hmem
      · exact ⟨hs, rfl, rfl⟩
      · rw [hx] at hmem hn
        obtain ⟨hP, hlast, hresult⟩ := ih hs₁ hmem (Nat.succ.inj hn)
        refine ⟨hP, hlast.trans ?_, hresult.trans ?_⟩
        · rw [hx, last_cons]
        · rw [hx]

/-- However often it is stopped, the procedure ends in the same store with the same result. -/
theorem Resumes.restarts (h : Resumes x P) (hs : P s)
    (hstops : Relation.ReflTransGen (Stops x) s s') :
    P s' ∧ (x.run s').last s' = (x.run s).last s ∧ (x.run s').result = (x.run s).result := by
  induction hstops with
  | refl => exact ⟨hs, rfl, rfl⟩
  | tail _ hstop ih =>
    obtain ⟨hP, hlast, hresult⟩ := ih
    obtain ⟨hP', hlast', hresult'⟩ := h.stops hP hstop
    exact ⟨hP', hlast'.trans hlast, hresult'.trans hresult⟩

end Proc

end Lib
