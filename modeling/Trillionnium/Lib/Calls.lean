import Mathlib.Data.List.Induction
import Trillionnium.Lib.Mutable
import Trillionnium.Lib.Trace

/-!
# Runs of calls on a mutable state

A component is its state and, for each call, a computation that may fail. A run performs calls one
after the other. A call that fails keeps what it wrote; one that crashes ends the run before it.
-/

namespace Lib

structure Answer (C E R : Type) where
  call : C
  reply : Except E R

variable {S C E R : Type}

/-- The turns of a run from `s`, none of which crashed, and the state after them. -/
inductive Runs (perform : C → EStateM E S R) (crash : E → Prop) (s : S) :
    List (Turn S (Answer C E R)) → S → Prop
  | nil : Runs perform crash s [] s
  | returned {ts : List (Turn S (Answer C E R))} {t t' : S} {c : C} {a : R}
      (h : Runs perform crash s ts t) (hrun : (perform c).run t = .ok a t') :
      Runs perform crash s (ts ++ [⟨t, ⟨c, .ok a⟩, t'⟩]) t'
  | failed {ts : List (Turn S (Answer C E R))} {t t' : S} {c : C} {e : E}
      (h : Runs perform crash s ts t) (hrun : (perform c).run t = .error e t')
      (hcrash : ¬ crash e) : Runs perform crash s (ts ++ [⟨t, ⟨c, .error e⟩, t'⟩]) t'

/-- What holds of every turn that a run takes holds of all its turns. Calls that fail without a
crash leave the state alone. -/
theorem Runs.induction {Step : S → C → R → S → Prop} {P : List (Turn S (Answer C E R)) → S → Prop}
    (hsafe : ∀ c t, SafeUnless crash (perform c) t (Step t c)) (hstart : P [] s)
    (hreturned : ∀ ts t c a t', P ts t → Step t c a t' → P (ts ++ [⟨t, ⟨c, .ok a⟩, t'⟩]) t')
    (hfailed : ∀ ts t c e, P ts t → P (ts ++ [⟨t, ⟨c, .error e⟩, t⟩]) t)
    (h : Runs perform crash s ts s') : P ts s' := by
  induction h with
  | nil => exact hstart
  | returned _ hrun ih => exact hreturned _ _ _ _ _ ih ((hsafe _ _).run_ok hrun)
  | failed _ hrun hcrash ih =>
    obtain rfl := ((hsafe _ _).run_error hrun).resolve_left hcrash
    exact hfailed _ _ _ _ ih

/-- The turns of the calls and the state after them, whatever the calls return. -/
def attempt (perform : C → EStateM E S R) (s : S) : List C → List (Turn S (Answer C E R)) × S
  | [] => ([], s)
  | c :: cs =>
    match (perform c).run s with
    | .ok a s' =>
      let (ts, t) := attempt perform s' cs
      (⟨s, ⟨c, .ok a⟩, s'⟩ :: ts, t)
    | .error e s' =>
      let (ts, t) := attempt perform s' cs
      (⟨s, ⟨c, .error e⟩, s'⟩ :: ts, t)

theorem calls_attempt {perform : C → EStateM E S R} :
    (Lib.attempt perform s cs).1.map (·.label.call) = cs := by
  induction cs generalizing s with
  | nil => rfl
  | cons c cs ih =>
    cases hrun : (perform c).run s <;> simp [Lib.attempt, hrun, ih]

theorem Runs.attempt (h : Runs perform crash s ts t) (cs : List C)
    (hcrash : ∀ u ∈ (Lib.attempt perform t cs).1, ∀ e, u.label.reply = .error e → ¬ crash e) :
    Runs perform crash s (ts ++ (Lib.attempt perform t cs).1) (Lib.attempt perform t cs).2 := by
  induction cs generalizing ts t with
  | nil => simpa [Lib.attempt] using h
  | cons c cs ih =>
    cases hrun : (perform c).run t with
    | ok a t' =>
      simp only [Lib.attempt, hrun, List.forall_mem_cons] at hcrash ⊢
      simpa using ih (h.returned hrun) hcrash.2
    | error e t' =>
      simp only [Lib.attempt, hrun, List.forall_mem_cons] at hcrash ⊢
      simpa using ih (h.failed hrun (hcrash.1 e rfl)) hcrash.2

/-! ## Calls that always return -/

section
variable (perform : S → C → R × S) (s : S)

def callTurn (c : C) : Turn S (C × R) := ⟨s, (c, (perform s c).1), (perform s c).2⟩

def callTurns (s : S) : List C → List (Turn S (C × R))
  | [] => []
  | c :: cs => callTurn perform s c :: callTurns (perform s c).2 cs

def afterCalls (s : S) (cs : List C) : S := cs.foldl (fun s c => (perform s c).2) s

variable {perform s} {c : C} {cs cs' : List C}

theorem afterCalls_append :
    afterCalls perform s (cs ++ cs') = afterCalls perform (afterCalls perform s cs) cs' :=
  List.foldl_append

theorem callTurns_append : callTurns perform s (cs ++ cs') =
    callTurns perform s cs ++ callTurns perform (afterCalls perform s cs) cs' := by
  induction cs generalizing s with
  | nil => rfl
  | cons c cs ih => exact congrArg (_ :: ·) ih

theorem callTurns_eq_append (h : callTurns perform s cs = ts ++ ts') :
    ∃ cs₁ cs₂, ts = callTurns perform s cs₁ ∧
      ts' = callTurns perform (afterCalls perform s cs₁) cs₂ := by
  induction cs generalizing s ts with
  | nil =>
    obtain ⟨rfl, rfl⟩ := List.append_eq_nil_iff.mp h.symm
    exact ⟨[], [], rfl, rfl⟩
  | cons c cs ih =>
    cases ts with
    | nil => exact ⟨[], c :: cs, rfl, h.symm⟩
    | cons t ts =>
      obtain ⟨rfl, hrest⟩ := List.cons.inj h
      obtain ⟨cs₁, cs₂, rfl, rfl⟩ := ih hrest
      exact ⟨c :: cs₁, cs₂, rfl, rfl⟩

/-- A turn of a run is that of a call, in the state that the calls before it left. -/
theorem callTurns_split (h : callTurns perform s cs = front ++ t :: back) :
    ∃ cs₁ c cs₂, front = callTurns perform s cs₁ ∧
      t = callTurn perform (afterCalls perform s cs₁) c ∧
        back = callTurns perform (perform (afterCalls perform s cs₁) c).2 cs₂ := by
  obtain ⟨cs₁, cs₂, hfront, hback⟩ := callTurns_eq_append h
  cases cs₂ with
  | nil => cases hback
  | cons c cs₂ =>
    obtain ⟨ht, hback⟩ := List.cons.inj hback
    exact ⟨cs₁, c, cs₂, hfront, ht, hback⟩

/-- An interval of a run is a run from the state that the calls before it left. -/
theorem callTurns_of_infix (h : ts <:+: callTurns perform s cs) :
    ∃ cs₁ cs₂, ts = callTurns perform (afterCalls perform s cs₁) cs₂ := by
  obtain ⟨front, back, h⟩ := h
  obtain ⟨cs₁, cs₂, -, hback⟩ := callTurns_eq_append (h.symm.trans (List.append_assoc _ _ _))
  obtain ⟨cs₃, cs₄, rfl, -⟩ := callTurns_eq_append hback.symm
  exact ⟨cs₁, cs₃, rfl⟩

/-- What holds at the start and is kept by every further call holds of every run. -/
theorem callTurns_induction {P : List (Turn S (C × R)) → S → Prop} (hstart : P [] s)
    (hcall : ∀ ts s c, P ts s → P (ts ++ [callTurn perform s c]) (perform s c).2) (cs : List C) :
    P (callTurns perform s cs) (afterCalls perform s cs) := by
  induction cs using List.reverseRecOn with
  | nil => exact hstart
  | append_singleton cs c ih =>
    rw [callTurns_append, afterCalls_append]
    exact hcall _ _ c ih

end

end Lib
