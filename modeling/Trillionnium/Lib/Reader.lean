import Trillionnium.Lib.Fallible
import Trillionnium.Lib.Layout

/-!
# Readers

Programs that read values off the front of a byte string and may fail. `Reads p x a` says that `p`
takes exactly `x` off the front and gives `a`; reading one value after another follows the bytes one
after another (`Reads.cons`).
-/

namespace Lib

abbrev Reader (E : Type) := StateT Bytes (Except E)

namespace Reader

variable {E α β : Type}

def take (n : Nat) (truncated : E) : Reader E Bytes := fun bs =>
  if n ≤ bs.length then .ok (bs.take n, bs.drop n) else .error truncated

def fail (e : E) : Reader E α := fun _ => .error e

/-- A value behind a byte that says whether it is there. -/
def optional (p : Reader E α) (truncated invalid : E) : Reader E (Option α) := do
  let flag ← take 1 truncated
  if flag = [0] then pure none
  else if flag = [1] then some <$> p
  else fail invalid

/-- The reader takes the bytes off the front and gives the value. -/
def Reads (p : Reader E α) (x : Bytes) (a : α) : Prop := ∀ rest, p (x ++ rest) = .ok (a, rest)

variable {p : Reader E α} {q : α → Reader E β} {x : Bytes} {xs : List Bytes} {a : α} {b : β}

theorem reads_pure : Reads (pure a : Reader E α) [] a := fun _ => rfl

/-- One value after another. -/
theorem Reads.append (hp : Reads p x a) (hq : Reads (q a) y b) : Reads (p >>= q) (x ++ y) b := by
  intro rest
  rw [List.append_assoc]
  change (p (x ++ (y ++ rest)) >>= fun z => q z.1 z.2) = _
  rw [hp]
  exact hq rest

theorem Reads.cons (hp : Reads p x a) (hq : Reads (q a) xs.flatten b) :
    Reads (p >>= q) (x :: xs).flatten b := by
  rw [List.flatten_cons]
  exact hp.append hq

/-- A step that reads nothing more. -/
theorem Reads.andThen (hp : Reads p x a) (hq : Reads (q a) [] b) : Reads (p >>= q) x b := by
  have h := hp.append hq
  rwa [List.append_nil] at h

/-- A check of what was read. -/
theorem reads_lift (h : e = .ok a) : Reads (StateT.lift e : Reader E α) [] a := by
  intro rest
  rw [h]
  rfl

/-- A check before the rest is read. -/
theorem Reads.check (h : e = .ok a) (hq : Reads (q a) x b) :
    Reads ((StateT.lift e : Reader E α) >>= q) x b := (reads_lift h).append hq

theorem Reads.map (hp : Reads p x a) : Reads (f <$> p) x (f a) := by
  intro rest
  change ((fun y : α × Bytes => (f y.1, y.2)) <$> p (x ++ rest)) = _
  rw [hp]
  rfl

theorem reads_take (h : x.length = n) : Reads (take n truncated) x x := by
  intro rest
  subst h
  simp [take]

theorem reads_optional_none : Reads (optional p truncated invalid) [0] none := by
  intro rest
  simp only [optional, bind, StateT.bind, Except.bind]
  rfl

theorem reads_optional_some (hp : Reads p x a) :
    Reads (optional p truncated invalid) (1 :: x) (some a) := by
  intro rest
  have hflag : take 1 truncated ((1 :: x) ++ rest) = .ok ([1], x ++ rest) :=
    reads_take (x := [1]) rfl (x ++ rest)
  simp only [optional, bind, StateT.bind]
  rw [hflag]
  exact hp.map rest

/-- What was read is gone for the reader that follows. -/
theorem Reads.run_bind (hp : Reads p x a) (rest : Bytes) : (p >>= q) (x ++ rest) = q a rest := by
  change (p (x ++ rest) >>= fun z => q z.1 z.2) = _
  rw [hp rest]
  rfl

theorem bind_run_of_error (h : p bs = .error e) : (p >>= q) bs = .error e := by
  change (p bs >>= fun z => q z.1 z.2) = _
  rw [h]
  rfl

end Reader

end Lib
