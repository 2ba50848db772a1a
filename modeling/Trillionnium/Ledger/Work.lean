import Mathlib.Data.List.Sort
import Mathlib.Tactic.Ring
import Trillionnium.Lib.Fallible

/-!
# Work, retargeting and time

`work`, `retarget` and `timestamp_state` of the reference arithmetic, and the parameters of the
network that they are called with.
-/

namespace Trillionnium.Ledger

open Lib

/-- What a call of the ledger raises. -/
inductive Fault where
  | reorgInProgress | unknownParent | height | limit | root | undoRoot | generation | network
  | workLength | duplicateContent | target | timeDeferred | time | task
  /-- `invalid parameters` or `invalid target/time` of `retarget`. -/
  | invalidParameters | invalidTarget
  /-- `invalid target/width` of `work`. -/
  | invalidWidth
  /-- A column that is `None` is decoded. -/
  | noHeader
  /-- A primary key is inserted twice. -/
  | integrity
  /-- The codec of a transaction, the work relation or the execution of a block raises. -/
  | rejected (code : String)
  /-- A loop runs past the heights it counts down. -/
  | endless
  deriving DecidableEq

def check (ok : Prop) [Decidable ok] (e : Fault) : Except Fault Unit :=
  if ok then .ok () else .error e

theorem check_ok {p : Prop} [Decidable p] : check p e = .ok u ↔ p := by
  unfold check
  split <;> simp_all

/-- The entries of `PARAMS` that admission reads, with what makes `retarget` accept them. -/
structure Params where
  initialTarget : Nat
  powLimit : Nat
  targetSpacing : Nat
  retargetInterval : Nat
  medianTimeWidth : Nat
  futureSkew : Nat
  genesisTimestamp : Nat
  maxTransactions : Nat
  maxTransactionBytes : Nat
  maxBlockBytes : Nat
  proofBytes : Nat
  interval_ge : 16 ≤ retargetInterval
  spacing_pos : 1 ≤ targetSpacing
  initial_pos : 1 ≤ initialTarget
  initial_le : initialTarget ≤ powLimit
  limit_lt : powLimit < 2 ^ 256

/-- `config/pon/devnet-v1.json` and the proof size of `config/pon/work-profile-v1.json`. -/
def Params.devnet : Params where
  initialTarget := 2 ^ 255 - 1
  powLimit := 2 ^ 255 - 1
  targetSpacing := 10
  retargetInterval := 16
  medianTimeWidth := 11
  futureSkew := 120
  genesisTimestamp := 1800000000
  maxTransactions := 256
  maxTransactionBytes := 2048
  maxBlockBytes := 1048576
  proofBytes := 49188
  interval_ge := by decide
  spacing_pos := by decide
  initial_pos := by decide
  initial_le := by decide
  limit_lt := by decide

/-! ## Work -/

def work (target : Nat) : Except Fault Nat :=
  if 1 ≤ target ∧ target < 2 ^ 256 then .ok (2 ^ 256 / (target + 1)) else .error .invalidWidth

theorem work_pos (h : target < 2 ^ 256) : 0 < 2 ^ 256 / (target + 1) :=
  Nat.div_pos h (Nat.succ_pos _)

/-! ## Retargeting -/

def desiredSpan (interval spacing : Nat) : Nat := (interval - 1) * spacing

/-- The observed span, kept within a factor of the desired one. -/
def boundedSpan (desired first last : Nat) : Nat :=
  min (4 * desired) (max ((desired + 3) / 4) (max 1 (last - first)))

def scaledTarget (parent desired first last : Nat) : Nat :=
  parent * boundedSpan desired first last / desired

def retarget (parent first last interval spacing powLimit : Nat) : Except Fault Nat := do
  check (16 ≤ interval ∧ 1 ≤ spacing) .invalidParameters
  check (1 ≤ parent ∧ parent ≤ powLimit ∧ powLimit < 2 ^ 256) .invalidTarget
  pure (min powLimit (max 1 (scaledTarget parent (desiredSpan interval spacing) first last)))

section
variable {parent first last first' last' interval spacing powLimit : Nat}

theorem desiredSpan_pos (hi : 16 ≤ interval) (hs : 1 ≤ spacing) :
    0 < desiredSpan interval spacing :=
  Nat.mul_pos (by omega) hs

theorem retarget_ok (hi : 16 ≤ interval) (hs : 1 ≤ spacing) (hp : 1 ≤ parent)
    (hle : parent ≤ powLimit) (hlt : powLimit < 2 ^ 256) :
    retarget parent first last interval spacing powLimit =
      .ok (min powLimit (max 1 (scaledTarget parent (desiredSpan interval spacing)
        first last))) := by
  have hparams : check (16 ≤ interval ∧ 1 ≤ spacing) .invalidParameters = .ok () :=
    check_ok.mpr ⟨hi, hs⟩
  have htarget : check (1 ≤ parent ∧ parent ≤ powLimit ∧ powLimit < 2 ^ 256) .invalidTarget =
      .ok () :=
    check_ok.mpr ⟨hp, hle, hlt⟩
  simp only [retarget, hparams, htarget, bind, Except.bind, pure, Except.pure]

theorem retarget_eq (h : retarget parent first last interval spacing powLimit = .ok n) :
    n = min powLimit (max 1 (scaledTarget parent (desiredSpan interval spacing) first last)) := by
  simp only [retarget, bind_eq_ok, pure_eq_ok, check_ok] at h
  obtain ⟨-, -, -, -, rfl⟩ := h
  rfl

theorem boundedSpan_le : boundedSpan desired first last ≤ 4 * desired := min_le_left _ _

theorem le_boundedSpan (h : 0 < desired) : desired ≤ 4 * boundedSpan desired first last := by
  have hquarter : (desired + 3) / 4 ≤ boundedSpan desired first last :=
    le_min (by omega) (le_max_left _ _)
  omega

/-- The target moves by a factor of at most four, up to the rounding of the division. -/
theorem scaledTarget_bounds (h : 0 < desired) :
    parent / 4 ≤ scaledTarget parent desired first last ∧
      scaledTarget parent desired first last ≤ 4 * parent := by
  constructor
  · rw [scaledTarget, Nat.le_div_iff_mul_le h]
    calc parent / 4 * desired ≤ parent / 4 * (4 * boundedSpan desired first last) :=
          Nat.mul_le_mul_left _ (le_boundedSpan h)
      _ = parent / 4 * 4 * boundedSpan desired first last := (Nat.mul_assoc ..).symm
      _ ≤ parent * boundedSpan desired first last := Nat.mul_le_mul_right _ (Nat.div_mul_le_self ..)
  · rw [scaledTarget]
    refine Nat.div_le_of_le_mul ?_
    calc parent * boundedSpan desired first last ≤ parent * (4 * desired) :=
          Nat.mul_le_mul_left _ boundedSpan_le
      _ = desired * (4 * parent) := by ring

theorem boundedSpan_mono (h : last + first' ≤ last' + first) :
    boundedSpan desired first last ≤ boundedSpan desired first' last' := by
  have hspan : last - first ≤ last' - first' := by omega
  exact min_le_min_left _ (max_le_max_left _ (max_le_max_left _ hspan))

theorem scaledTarget_mono (h : last + first' ≤ last' + first) :
    scaledTarget parent desired first last ≤ scaledTarget parent desired first' last' :=
  Nat.div_le_div_right (Nat.mul_le_mul_left _ (boundedSpan_mono h))

end

/-! ## Time -/

inductive Timing where
  | invalidMedian | deferredFuture | admissible

def timestampState (candidate : Nat) (ancestors : List Nat) (now futureSkew : Nat) : Timing :=
  let recent := (ancestors.drop (ancestors.length - 11)).insertionSort (· ≤ ·)
  if recent ≠ [] ∧ candidate ≤ recent.getD (recent.length / 2) 0 then .invalidMedian
  else if now + futureSkew < candidate then .deferredFuture
  else .admissible

end Trillionnium.Ledger
