import Trillionnium.Lib.Fallible

/-!
# Computations on a mutable state that may fail half-way

`EStateM E S` keeps what was written before a failure. `Safe x s Q` says that run from `s` the
computation `x` either fails with the state still `s` or returns in a way that `Q` describes; the
rules split a computation into the checks before its first write, which may fail, and the writes,
which may not. `SafeUnless` exempts the failures after which the state is not used again, and
`ReturnsUnless` is what is left to show from the first write on.
-/

namespace Lib

variable {S E α β : Type} {s s' : S} {a : α}

/-- A fallible computation that reads nothing of the state. -/
def lift (x : Except E α) : EStateM E S α :=
  match x with
  | .ok a => pure a
  | .error e => throw e

def ensure (p : S → Prop) [DecidablePred p] (e : E) : EStateM E S Unit := do
  lift (require (p (← get)) e)

/-- Run from `s`, `x` returns with `Q`, or it fails and leaves `s`, or it crashes. -/
def SafeUnless (crash : E → Prop) (x : EStateM E S α) (s : S) (Q : α → S → Prop) : Prop :=
  match x.run s with
  | .ok a s' => Q a s'
  | .error e s' => crash e ∨ s' = s

/-- Run from `s`, `x` fails and leaves `s`, or returns with `Q`. -/
abbrev Safe (x : EStateM E S α) (s : S) (Q : α → S → Prop) : Prop :=
  SafeUnless (fun _ => False) x s Q

theorem run_bind_ok {f : α → EStateM E S β} (h : x.run s = .ok a s') :
    (x >>= f).run s = (f a).run s' := by
  rw [EStateM.run_bind, h]

@[simp] theorem run_get_bind {f : S → EStateM E S β} : (get >>= f).run s = (f s).run s := rfl

@[simp] theorem run_modify_bind {f : Unit → EStateM E S β} :
    (modify g >>= f).run s = (f ()).run (g s) := rfl

@[simp] theorem run_lift_ok_bind : (lift (.ok a) >>= f).run s = (f a).run s := rfl

namespace SafeUnless
variable {crash : E → Prop} {x : EStateM E S α} {f : α → EStateM E S β} {Q : β → S → Prop}

/-- A computation that returns is safe where its result is described. -/
theorem of_run {Q : α → S → Prop} (h : x.run s = .ok a s') (hQ : Q a s') :
    SafeUnless crash x s Q := by
  rw [SafeUnless, h]
  exact hQ

theorem get_bind {f : S → EStateM E S β} (h : SafeUnless crash (f s) s Q) :
    SafeUnless crash (get >>= f) s Q := h

theorem lift_bind (h : ∀ a, y = .ok a → SafeUnless crash (f a) s Q) :
    SafeUnless crash (lift y >>= f) s Q := by
  cases y with
  | error e => exact .inr rfl
  | ok a => exact h a rfl

theorem ensure_bind [DecidablePred p] {f : Unit → EStateM E S β}
    (h : p s → SafeUnless crash (f ()) s Q) : SafeUnless crash (ensure p e >>= f) s Q := by
  unfold ensure
  rw [bind_assoc]
  exact get_bind (lift_bind fun _ hp => h (require_eq_ok.mp hp))

theorem of_ensure [DecidablePred p] {Q : Unit → S → Prop}
    (h : p s → Q () s) : SafeUnless crash (ensure p e) s Q := by
  rw [← bind_pure (ensure p e)]
  exact ensure_bind h

theorem run_ok {Q : α → S → Prop} (h : SafeUnless crash x s Q) (hr : x.run s = .ok a s') :
    Q a s' := by
  rw [SafeUnless, hr] at h
  exact h

theorem run_error {Q : α → S → Prop} (h : SafeUnless crash x s Q)
    (hr : x.run s = .error e s') : crash e ∨ s' = s := by
  rw [SafeUnless, hr] at h
  exact h

end SafeUnless

/-- Run from `s`, `x` returns with `Q`, or it crashes. -/
def ReturnsUnless (crash : E → Prop) (x : EStateM E S α) (s : S) (Q : α → S → Prop) : Prop :=
  match x.run s with
  | .ok a s' => Q a s'
  | .error e _ => crash e

namespace ReturnsUnless
variable {crash : E → Prop} {x : EStateM E S α} {f : α → EStateM E S β} {Q : β → S → Prop}

theorem of_pure {Q : α → S → Prop} (h : Q a s) : ReturnsUnless crash (pure a) s Q := h

theorem of_modify {Q : Unit → S → Prop} (h : Q () (g s)) :
    ReturnsUnless crash (modify g : EStateM E S Unit) s Q := h

theorem get_bind {f : S → EStateM E S β} (h : ReturnsUnless crash (f s) s Q) :
    ReturnsUnless crash (get >>= f) s Q := h

theorem modify_bind {f : Unit → EStateM E S β}
    (h : ReturnsUnless crash (f ()) (g s) Q) : ReturnsUnless crash (modify g >>= f) s Q := h

theorem lift_bind (herror : ∀ e, y = .error e → crash e)
    (h : ∀ a, y = .ok a → ReturnsUnless crash (f a) s Q) :
    ReturnsUnless crash (lift y >>= f) s Q := by
  cases y with
  | error e => exact herror e rfl
  | ok a => exact h a rfl

theorem mono {Q R : α → S → Prop} (h : ReturnsUnless crash x s Q)
    (hQR : ∀ a s', Q a s' → R a s') : ReturnsUnless crash x s R := by
  unfold ReturnsUnless at h ⊢
  split <;> simp_all

theorem bind (hx : ReturnsUnless crash x s P)
    (hf : ∀ a s', P a s' → ReturnsUnless crash (f a) s' Q) : ReturnsUnless crash (x >>= f) s Q := by
  unfold ReturnsUnless at hx
  rw [ReturnsUnless, EStateM.run_bind]
  split at hx
  · next hrun =>
    rw [hrun]
    exact hf _ _ hx
  · next hrun =>
    rw [hrun]
    exact hx

theorem safe {Q : α → S → Prop} (h : ReturnsUnless crash x s Q) : SafeUnless crash x s Q := by
  unfold ReturnsUnless at h
  unfold SafeUnless
  split <;> simp_all

end ReturnsUnless

/-- From the first write on, a computation has to return. -/
theorem SafeUnless.modify_bind {g : S → S} (h : ReturnsUnless crash (f ()) (g s) Q) :
    SafeUnless crash (modify g >>= f) s Q := by
  unfold ReturnsUnless at h
  rw [SafeUnless, run_modify_bind]
  split <;> simp_all

/-- A computation that has to return after one that leaves the state alone when it fails. -/
theorem SafeUnless.bind (hx : SafeUnless crash x s P)
    (hf : ∀ a s', P a s' → ReturnsUnless crash (f a) s' Q) : SafeUnless crash (x >>= f) s Q := by
  unfold SafeUnless at hx ⊢
  rw [EStateM.run_bind]
  split at hx
  · next hrun =>
    rw [hrun]
    have hreturns := hf _ _ hx
    unfold ReturnsUnless at hreturns
    dsimp only
    split <;> simp_all
  · next hrun =>
    rw [hrun]
    exact hx

end Lib
