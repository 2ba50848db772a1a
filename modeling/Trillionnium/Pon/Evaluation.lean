import Mathlib.Data.Rat.Floor
import Trillionnium.Lib.Grouped
import Trillionnium.Lib.SignTest
import Trillionnium.Pon.Tagged

/-!
# Cluster evaluation

`evaluation.py`: rows are checked one by one and gathered by their source group, and a candidate is
compared with a reference by the mean gain of the groups and a sign test over them. Fractions are
exact rationals.
-/

namespace Trillionnium.Pon.Evaluation

open Lib

/-- A Python value; `other` stands for the values of any other type. -/
inductive Value where
  | none
  | bool (b : Bool)
  | int (n : Int)
  | str (s : String)
  | list (items : List Value)
  | dict (entries : List (String × Value))
  | other (id : Nat)

namespace Value

def int? : Value → Option Int
  | int n => some n
  | _ => Option.none

def str? : Value → Option String
  | str s => some s
  | _ => Option.none

def list? : Value → Option (List Value)
  | list items => some items
  | _ => Option.none

def bool? : Value → Option Bool
  | bool b => some b
  | _ => Option.none

def dict? : Value → Option (List (String × Value))
  | dict entries => some entries
  | _ => Option.none

/-- `value.get(key)` of a dictionary. -/
def get (key : String) (value : Value) : Option Value := value.dict?.bind (·.lookup key)

end Value

def MAX_ROWS : Nat := 32768
def MAX_GROUPS : Nat := 4096
def MINIMUM_GROUPS : Nat := 20
def COMPARISONS : Nat := 4

/-! ## Checking the rows -/

/-- A text of the field whose length is within a bound. -/
def boundedText (value : Option Value) (bound : Nat) (code : String) : Except Raised String := do
  let text ← getOr (value.bind Value.str?) (.valueError code)
  require (0 < text.length ∧ text.length ≤ bound) (.valueError code)
  return text

/-- A class: an integer from zero to two, and no boolean. -/
def classOf (value : Option Value) (code : String) : Except Raised Int := do
  let n ← getOr (value.bind Value.int?) (.valueError code)
  require (0 ≤ n ∧ n < 3) (.valueError code)
  return n

def identityOf (row : Value) : Except Raised String := do
  require row.dict?.isSome (.valueError "TASK_SHAPE")
  boundedText (row.get "id") 256 "TASK_ID"

def labelOf (row : Value) : Except Raised Int := classOf (row.get "label") "LABEL"

def groupOf (row : Value) : Except Raised String := do
  let group ← boundedText ((row.get "source_group").or (row.get "file")) 1024 "SOURCE_GROUP"
  require ((row.get "file").all fun file => file.str? = some group)
    (.valueError "SOURCE_GROUP_BINDING")
  return group

/-- The ids met and the indices of each group. -/
structure Seen where
  ids : List String
  groups : List (String × List Nat)

def place (predictions : List (List Value)) (s : Seen) (entry : Value × Nat) :
    Except Raised Seen := do
  let identity ← identityOf entry.1
  require (identity ∉ s.ids) (.valueError "DUPLICATE_TASK")
  let _ ← labelOf entry.1
  let group ← groupOf entry.1
  forM predictions fun prediction => do
    let _ ← classOf prediction[entry.2]? "PREDICTION"
  return ⟨identity :: s.ids, pushAt group entry.2 s.groups⟩

def rowsOf (rows : Value) : Except Raised (List Value) := do
  let rows ← getOr rows.list? (.valueError "EVALUATION_LIMIT")
  require (0 < rows.length ∧ rows.length ≤ MAX_ROWS) (.valueError "EVALUATION_LIMIT")
  return rows

def predictionsOf (rows : List Value) (predictions : Value) : Except Raised (List Value) := do
  let predictions ← getOr predictions.list? (.valueError "SAMPLE_ALIGNMENT")
  require (predictions.length = rows.length) (.valueError "SAMPLE_ALIGNMENT")
  return predictions

/-- `_aligned`: the groups with the indices of their rows. -/
def aligned (rows : Value) (predictions : List Value) :
    Except Raised (List (String × List Nat)) := do
  let rows ← rowsOf rows
  let predictions ← predictions.mapM (predictionsOf rows)
  let s ← rows.zipIdx.foldlM (place predictions) ⟨[], []⟩
  require (s.groups.length ≤ MAX_GROUPS) (.valueError "EVALUATION_LIMIT")
  return s.groups

/-! ## The gate -/

/-- `predictions[i] == rows[i]['label']` as an integer. -/
def correctAt (rows predictions : Value) (i : Nat) : Int :=
  let label := (rows.list?.bind (·[i]?)).bind (·.get "label")
  let prediction := predictions.list?.bind (·[i]?)
  if (prediction.bind Value.int?).isSome ∧ prediction.bind Value.int? = label.bind Value.int? then 1
  else 0

/-- The mean of a quantity over each group. -/
def groupMeans (f : Nat → Int) (groups : List (String × List Nat)) : List Rat :=
  groups.map fun group => ((group.2.map f).sum : Rat) / group.2.length

structure Assessment where
  clusters : Nat
  wins : Nat
  losses : Nat
  comparisons : Int
  clusterGate : Bool
  meanGainNumerator : Int
  meanGainDenominator : Nat
  exploratoryScore : Int
  futureWindowObserved : Bool
  callerFutureWindowClaim : Bool
  publicRewardEligible : Bool
  reason : String
  deriving DecidableEq

/-- `int(q)`. -/
def truncate (q : Rat) : Int := q.num.tdiv q.den

/-- What is computed from the differences of the groups. -/
def assessment (differences : List Rat) (comparisons minimumClusters : Int) (futureWindow : Bool) :
    Assessment :=
  let wins := differences.countP (0 < ·)
  let losses := differences.countP (· < 0)
  let decisive := wins + losses
  let mean := differences.sum / differences.length
  let passes : Bool := minimumClusters ≤ differences.length ∧ 0 < mean ∧ losses < wins ∧
    20 * comparisons * SignTest.tail decisive wins ≤ 2 ^ decisive
  { clusters := differences.length, wins, losses, comparisons, clusterGate := passes
    meanGainNumerator := mean.num, meanGainDenominator := mean.den
    exploratoryScore := if passes then truncate (mean * 1000000) else 0
    futureWindowObserved := false, callerFutureWindowClaim := futureWindow,
    publicRewardEligible := false
    reason := "independent time/source-owner receipts must be verified by the accepting owner" }

def assess (rows candidate reference comparisons minimumClusters futureWindow : Value) :
    Except Raised Assessment := do
  let comparisons ← getOr comparisons.int? (.valueError "MULTIPLICITY")
  require (COMPARISONS ≤ comparisons ∧ comparisons ≤ 64) (.valueError "MULTIPLICITY")
  let minimumClusters ← getOr minimumClusters.int? (.valueError "MINIMUM_CLUSTERS")
  require (MINIMUM_GROUPS ≤ minimumClusters ∧ minimumClusters ≤ MAX_GROUPS)
    (.valueError "MINIMUM_CLUSTERS")
  let futureWindow ← getOr futureWindow.bool? (.valueError "TIME_OBSERVATION")
  let groups ← aligned rows [candidate, reference]
  let gain i := correctAt rows candidate i - correctAt rows reference i
  return assessment (groupMeans gain groups) comparisons minimumClusters futureWindow

/-! ## What the checks accept -/

def idOf (row : Value) : String := (identityOf row).toOption.getD ""

def sourceOf (row : Value) : String := (groupOf row).toOption.getD ""

structure RowSound (row : Value) : Prop where
  identity : identityOf row = .ok (idOf row)
  label : ∃ label, labelOf row = .ok label
  group : groupOf row = .ok (sourceOf row)

def PredictionSound (prediction : Option Value) : Prop :=
  ∃ n, classOf prediction "PREDICTION" = .ok n

section
variable {predictions : List (List Value)} {s s' : Seen} {entry : Value × Nat}
  {entries : List (Value × Nat)}

theorem place_eq_ok : place predictions s entry = .ok s' ↔
    (RowSound entry.1 ∧ ∀ prediction ∈ predictions, PredictionSound prediction[entry.2]?) ∧
      idOf entry.1 ∉ s.ids ∧ s' = ⟨idOf entry.1 :: s.ids,
        pushAt (sourceOf entry.1) entry.2 s.groups⟩ := by
  simp only [place, bind_eq_ok, require_eq_ok, forM_eq_ok, pure_eq_ok]
  constructor
  · rintro ⟨identity, hidentity, _, hnew, label, hlabel, group, hgroup, _, hpredictions, rfl⟩
    have hid : idOf entry.1 = identity := by rw [idOf, hidentity]; rfl
    have hsource : sourceOf entry.1 = group := by rw [sourceOf, hgroup]; rfl
    rw [hid, hsource]
    refine ⟨⟨⟨hid ▸ hidentity, ⟨label, hlabel⟩, hsource ▸ hgroup⟩, fun prediction hp => ?_⟩,
      hnew, rfl⟩
    obtain ⟨n, hn, -⟩ := hpredictions prediction hp
    exact ⟨n, hn⟩
  · rintro ⟨⟨⟨hidentity, ⟨label, hlabel⟩, hgroup⟩, hpredictions⟩, hnew, rfl⟩
    refine ⟨_, hidentity, (), hnew, label, hlabel, _, hgroup, (), fun prediction hp => ?_, rfl⟩
    obtain ⟨n, hn⟩ := hpredictions prediction hp
    exact ⟨n, hn, trivial⟩

theorem foldlM_place : entries.foldlM (place predictions) s = .ok s' ↔
    (∀ entry ∈ entries, RowSound entry.1 ∧ ∀ prediction ∈ predictions,
      PredictionSound prediction[entry.2]?) ∧
      ((entries.map fun entry => idOf entry.1).Nodup ∧ ∀ entry ∈ entries, idOf entry.1 ∉ s.ids) ∧
      s' = ⟨(entries.map fun entry => idOf entry.1).reverse ++ s.ids,
        entries.foldl (fun groups entry => pushAt (sourceOf entry.1) entry.2 groups) s.groups⟩ := by
  induction entries generalizing s with
  | nil =>
    rw [List.foldlM_nil, pure_eq_ok]
    simp [eq_comm]
  | cons entry entries ih =>
    rw [List.foldlM_cons, bind_eq_ok]
    simp only [place_eq_ok, ih, List.forall_mem_cons, List.map_cons, List.nodup_cons,
      List.foldl_cons, List.reverse_cons, List.append_assoc, List.singleton_append]
    constructor
    · rintro ⟨_, ⟨hsound, hnew, rfl⟩, hsounds, ⟨hnodup, hfresh⟩, rfl⟩
      refine ⟨⟨hsound, hsounds⟩, ⟨⟨?_, hnodup⟩, hnew, fun e he hmem => hfresh e he (.tail _ hmem)⟩,
        rfl⟩
      intro hmem
      obtain ⟨e, he, heq⟩ := List.mem_map.mp hmem
      exact hfresh e he (heq ▸ List.mem_cons_self)
    · rintro ⟨⟨hsound, hsounds⟩, ⟨⟨hnotmem, hnodup⟩, hnew, hfresh⟩, rfl⟩
      refine ⟨_, ⟨hsound, hnew, rfl⟩, hsounds, ⟨hnodup, fun e he hmem => ?_⟩, rfl⟩
      rcases List.mem_cons.mp hmem with heq | hmem
      · exact hnotmem (heq ▸ List.mem_map_of_mem he)
      · exact hfresh e he hmem

end

def groupsOf (rows : List Value) : List (String × List Nat) :=
  grouped (rows.zipIdx.map fun entry => (sourceOf entry.1, entry.2))

/-- Rows that are accepted with any predictions that fit them. -/
structure RowsSound (rows : List Value) : Prop where
  length : 0 < rows.length ∧ rows.length ≤ MAX_ROWS
  sound : ∀ row ∈ rows, RowSound row
  distinct : (rows.map idOf).Nodup
  groups : (groupsOf rows).length ≤ MAX_GROUPS

/-- A list of one class for each row. -/
def PredictionsSound (rows : List Value) (predictions : Value) : Prop :=
  ∃ items, predictions = .list items ∧ items.length = rows.length ∧ ∀ item ∈ items,
    PredictionSound (some item)

theorem list?_eq_some {value : Value} : value.list? = some items ↔ value = .list items := by
  cases value <;> simp [Value.list?]

theorem mapM_predictionsOf {rows : List Value} {lists : List (List Value)} :
    predictions.mapM (predictionsOf rows) = .ok lists ↔
      predictions = lists.map Value.list ∧ ∀ items ∈ lists, items.length = rows.length := by
  induction predictions generalizing lists with
  | nil =>
    rw [List.mapM_nil, pure_eq_ok]
    constructor
    · rintro rfl
      exact ⟨rfl, by simp⟩
    · rintro ⟨hnil, -⟩
      exact (List.map_eq_nil_iff.mp hnil.symm).symm
  | cons prediction predictions ih =>
    simp only [List.mapM_cons, bind_eq_ok, pure_eq_ok, ih, predictionsOf, getOr_eq_ok,
      list?_eq_some, require_eq_ok]
    constructor
    · rintro ⟨items, ⟨_, rfl, _, hlength, rfl⟩, lists, ⟨rfl, hlengths⟩, rfl⟩
      exact ⟨rfl, List.forall_mem_cons.mpr ⟨hlength, hlengths⟩⟩
    · rintro ⟨heq, hlengths⟩
      cases lists with
      | nil => cases heq
      | cons items lists =>
        obtain ⟨rfl, rfl⟩ := List.cons.inj heq
        obtain ⟨hlength, hlengths⟩ := List.forall_mem_cons.mp hlengths
        exact ⟨items, ⟨items, rfl, (), hlength, rfl⟩, lists, ⟨rfl, hlengths⟩, rfl⟩

/-- The checks of the entries, for the rows and for each list of predictions. -/
theorem forall_entries {rows : List Value} {lists : List (List Value)}
    (hlengths : ∀ items ∈ lists, items.length = rows.length) :
    (∀ entry ∈ rows.zipIdx, RowSound entry.1 ∧ ∀ items ∈ lists, PredictionSound items[entry.2]?) ↔
      (∀ row ∈ rows, RowSound row) ∧ ∀ items ∈ lists, ∀ item ∈ items,
      PredictionSound (some item) := by
  constructor
  · intro h
    refine ⟨fun row hrow => ?_, fun items hitems item hitem => ?_⟩
    · obtain ⟨i, hi⟩ := List.getElem?_of_mem hrow
      exact (h (row, i) (List.mem_zipIdx_iff_getElem?.mpr hi)).1
    · obtain ⟨i, hi⟩ := List.getElem?_of_mem hitem
      obtain ⟨hlt, -⟩ := List.getElem?_eq_some_iff.mp hi
      rw [hlengths items hitems] at hlt
      exact hi ▸ (h (rows[i], i) (List.mem_zipIdx_iff_getElem?.mpr
        (List.getElem?_eq_getElem hlt))).2 items hitems
  · rintro ⟨hrows, hitems⟩ ⟨row, i⟩ hentry
    have hi := List.mem_zipIdx_iff_getElem?.mp hentry
    refine ⟨hrows row (List.mem_of_getElem? hi), fun items hmem => ?_⟩
    obtain ⟨hlt, -⟩ := List.getElem?_eq_some_iff.mp hi
    rw [← hlengths items hmem] at hlt
    exact List.getElem?_eq_getElem hlt ▸ hitems items hmem _ (List.getElem_mem hlt)

theorem aligned_eq_ok {rows : Value} {predictions : List Value}
    {groups : List (String × List Nat)} :
    aligned rows predictions = .ok groups ↔ ∃ items, rows = .list items ∧ RowsSound items ∧
      (∀ prediction ∈ predictions, PredictionsSound items prediction) ∧
      groups = groupsOf items := by
  have hids (items : List Value) : (items.zipIdx.map fun entry => idOf entry.1) =
      items.map idOf := by
    conv_rhs => rw [← List.zipIdx_map_fst 0 items, List.map_map]
    rfl
  have hgroups (items : List Value) :
      items.zipIdx.foldl (fun groups entry => pushAt (sourceOf entry.1) entry.2 groups) [] =
        groupsOf items := by
    rw [groupsOf, grouped, List.foldl_map]
  simp only [aligned, rowsOf, bind_eq_ok, getOr_eq_ok, list?_eq_some, require_eq_ok, pure_eq_ok,
    mapM_predictionsOf, foldlM_place]
  constructor
  · rintro ⟨items, ⟨_, rfl, _, hlength, rfl⟩, lists, ⟨rfl, hlengths⟩, _,
      ⟨hentries, ⟨hdistinct, -⟩, rfl⟩, _, hle, rfl⟩
    obtain ⟨hrows, hitems⟩ := (forall_entries hlengths).mp hentries
    rw [hids] at hdistinct
    rw [hgroups] at hle
    refine ⟨_, rfl, ⟨hlength, hrows, hdistinct, hle⟩, fun prediction hp => ?_, hgroups _⟩
    obtain ⟨items, hmem, rfl⟩ := List.mem_map.mp hp
    exact ⟨items, rfl, hlengths items hmem, hitems items hmem⟩
  · rintro ⟨items, rfl, ⟨hlength, hrows, hdistinct, hle⟩, hpredictions, rfl⟩
    obtain ⟨lists, hlists⟩ := exists_mapM_eq_ok.mpr fun prediction hp => by
      obtain ⟨list, rfl, hlist, -⟩ := hpredictions prediction hp
      exact ⟨list, show predictionsOf items (.list list) = .ok list by
        simp only [predictionsOf, bind_eq_ok, getOr_eq_ok, list?_eq_some, require_eq_ok, pure_eq_ok]
        exact ⟨list, rfl, (), hlist, rfl⟩⟩
    obtain ⟨rfl, hlengths⟩ := mapM_predictionsOf.mp hlists
    refine ⟨items, ⟨items, rfl, (), hlength, rfl⟩, lists, ⟨rfl, hlengths⟩, _,
      ⟨(forall_entries hlengths).mpr ⟨hrows, fun list hmem => ?_⟩,
        ⟨hids items ▸ hdistinct, by simp⟩, rfl⟩, (), ?_, ?_⟩
    · obtain ⟨list', heq, -, hsound⟩ := hpredictions _ (List.mem_map_of_mem hmem)
      exact Value.list.inj heq ▸ hsound
    · rw [hgroups]
      exact hle
    · exact hgroups items

/-! ## More correct answers -/

theorem assess_eq_ok :
    assess rows candidate reference comparisons minimumClusters futureWindow = .ok r ↔
      ∃ c m w items, (comparisons = .int c ∧ COMPARISONS ≤ c ∧ c ≤ 64) ∧
        (minimumClusters = .int m ∧ MINIMUM_GROUPS ≤ m ∧ m ≤ MAX_GROUPS) ∧ futureWindow = .bool w ∧
        rows = .list items ∧ RowsSound items ∧ PredictionsSound items candidate ∧
        PredictionsSound items reference ∧
        r = assessment (groupMeans (fun i =>
          correctAt rows candidate i - correctAt rows reference i) (groupsOf items)) c m w := by
  have hint {v : Value} {n : Int} : v.int? = some n ↔ v = .int n := by cases v <;> simp [Value.int?]
  have hbool {v : Value} {b : Bool} : v.bool? = some b ↔ v = .bool b := by
    cases v <;> simp [Value.bool?]
  simp only [assess, bind_eq_ok, getOr_eq_ok, require_eq_ok, pure_eq_ok, aligned_eq_ok, hint, hbool,
    List.forall_mem_cons, List.not_mem_nil, false_imp_iff, implies_true, and_true]
  constructor
  · rintro ⟨c, hc, _, hcrange, m, hm, _, hmrange, w, hw, groups, ⟨items, hitems, hsound,
      ⟨hcand, href⟩, rfl⟩, rfl⟩
    exact ⟨c, m, w, items, ⟨hc, hcrange⟩, ⟨hm, hmrange⟩, hw, hitems, hsound, hcand, href, rfl⟩
  · rintro ⟨c, m, w, items, ⟨hc, hcrange⟩, ⟨hm, hmrange⟩, hw, hitems, hsound, hcand, href, rfl⟩
    exact ⟨c, hc, (), hcrange, m, hm, (), hmrange, w, hw, _, ⟨items, hitems, hsound, ⟨hcand, href⟩,
      rfl⟩, rfl⟩

theorem groupMeans_le (h : ∀ i, f i ≤ g i) (groups : List (String × List Nat)) :
    List.Forall₂ (· ≤ ·) (groupMeans f groups) (groupMeans g groups) := by
  rw [groupMeans, groupMeans, List.forall₂_map_left_iff, List.forall₂_map_right_iff,
    List.forall₂_same]
  intro group _
  have hsum : (group.2.map f).sum ≤ (group.2.map g).sum := List.sum_le_sum fun i _ => h i
  gcongr

theorem truncate_nonneg (h : 0 ≤ q) : truncate q = ⌊q⌋ := by
  rw [truncate, Int.tdiv_eq_ediv_of_nonneg (Rat.num_nonneg.mpr h), Rat.floor_def']

section
variable {d d' : List Rat} {comparisons minimumClusters : Int} {futureWindow : Bool}

theorem clusterGate_iff : (assessment d comparisons minimumClusters futureWindow).clusterGate ↔
    minimumClusters ≤ d.length ∧ 0 < d.sum / d.length ∧ d.countP (· < 0) < d.countP (0 < ·) ∧
      20 * comparisons * SignTest.tail (d.countP (0 < ·) + d.countP (· < 0)) (d.countP (0 < ·)) ≤
        2 ^ (d.countP (0 < ·) + d.countP (· < 0)) :=
  decide_eq_true_iff

theorem exploratoryScore_eq :
    (assessment d comparisons minimumClusters futureWindow).exploratoryScore =
    if (assessment d comparisons minimumClusters futureWindow).clusterGate then
      ⌊d.sum / d.length * 1000000⌋ else 0 := by
  by_cases hgate : (assessment d comparisons minimumClusters futureWindow).clusterGate
  · have hmean := (clusterGate_iff.mp hgate).2.1
    rw [if_pos hgate, ← truncate_nonneg (by positivity)]
    exact if_pos hgate
  · rw [if_neg hgate]
    exact if_neg hgate

theorem countP_le_countP (h : List.Forall₂ (fun a b => p a → q b) d d') :
    d.countP p ≤ d'.countP q := by
  induction h with
  | nil => rfl
  | @cons a b _ _ hab _ ih =>
    rw [List.countP_cons, List.countP_cons]
    cases hp : p a
    · exact ih.trans (Nat.le_add_right _ _)
    · rw [if_pos rfl, if_pos (hab hp)]
      exact Nat.succ_le_succ ih

theorem significant_iff (hcomparisons : 0 ≤ comparisons) (wins losses : Nat) :
    20 * comparisons * SignTest.tail (wins + losses) wins ≤ 2 ^ (wins + losses) ↔
      SignTest.Significant (20 * comparisons.toNat) wins losses := by
  obtain ⟨c, rfl⟩ := Int.eq_ofNat_of_zero_le hcomparisons
  rw [SignTest.Significant, Int.toNat_natCast]
  norm_cast

/-- Groups that gain at least as much keep the gate, and the score does not fall. -/
theorem assessment_mono (hcomparisons : 0 ≤ comparisons) (h : List.Forall₂ (· ≤ ·) d d') :
    ((assessment d comparisons minimumClusters futureWindow).clusterGate →
      (assessment d' comparisons minimumClusters futureWindow).clusterGate) ∧
    (assessment d comparisons minimumClusters futureWindow).exploratoryScore ≤
      (assessment d' comparisons minimumClusters futureWindow).exploratoryScore := by
  have hwins : d.countP (0 < ·) ≤ d'.countP (0 < ·) :=
    countP_le_countP (h.imp fun a b hab ha => decide_eq_true ((of_decide_eq_true ha).trans_le hab))
  have hlosses : d'.countP (· < 0) ≤ d.countP (· < 0) :=
    countP_le_countP (h.flip.imp fun a b hab ha =>
      decide_eq_true (hab.trans_lt (of_decide_eq_true ha)))
  have hmean : d.sum / d.length ≤ d'.sum / d'.length := by
    rw [h.length_eq]
    gcongr
    exact h.sum_le_sum
  have hgate : (assessment d comparisons minimumClusters futureWindow).clusterGate →
      (assessment d' comparisons minimumClusters futureWindow).clusterGate := by
    rw [clusterGate_iff, clusterGate_iff, significant_iff hcomparisons,
      significant_iff hcomparisons, ← h.length_eq]
    rintro ⟨hminimum, hpos, hmore, hsignificant⟩
    refine ⟨hminimum, h.length_eq ▸ hpos.trans_le hmean, hlosses.trans_lt (hmore.trans_le hwins),
      ?_⟩
    exact hsignificant.mono hwins hlosses
  refine ⟨hgate, ?_⟩
  rw [exploratoryScore_eq, exploratoryScore_eq]
  split
  · next hA =>
    rw [if_pos (hgate hA)]
    exact Int.floor_mono (by gcongr)
  · split
    · next hB =>
      have hpos := (clusterGate_iff.mp hB).2.1
      exact Int.floor_nonneg.mpr (by positivity)
    · exact le_rfl

/-- Only the differences count, not their order. -/
theorem assessment_perm (h : d.Perm d') :
    assessment d comparisons minimumClusters futureWindow =
      assessment d' comparisons minimumClusters futureWindow := by
  rw [assessment, assessment]
  simp only [h.countP_eq, h.sum_eq, h.length_eq]

end

/-! ## The order of the rows -/

/-- A row with the answers of the candidate and of the reference. -/
structure Sample where
  row : Value
  candidate : Value
  reference : Value

namespace Sample

def gain (t : Sample) : Int :=
  correctAt (.list [t.row]) (.list [t.candidate]) 0 -
    correctAt (.list [t.row]) (.list [t.reference]) 0

def meanGain (ts : List Sample) (group : String) : Rat :=
  let members := ts.filter fun t => sourceOf t.row = group
  ((members.map gain).sum : Rat) / members.length

end Sample

section
variable {ts ts' : List Sample}

theorem groupsOf_perm (ts : List Sample) : (groupsOf (ts.map Sample.row)).Perm
    ((ts.map fun t => sourceOf t.row).dedup.map fun group =>
      (group, (ts.zipIdx.filter fun e => sourceOf e.1.row = group).map Prod.snd)) := by
  rw [groupsOf, List.zipIdx_map, List.map_map]
  have hperm := grouped_perm (ts.zipIdx.map fun e => (sourceOf e.1.row, e.2))
  have hkeys : (ts.zipIdx.map fun e => (sourceOf e.1.row, e.2)).map Prod.fst = ts.map fun t =>
      sourceOf t.row := by
    conv_rhs => rw [← List.zipIdx_map_fst 0 ts]
    simp only [List.map_map]
    rfl
  rw [hkeys] at hperm
  simp only [List.filter_map, List.map_map] at hperm
  exact hperm

/-- The means of the groups, up to the order in which the groups come. -/
theorem groupMeans_perm (ts : List Sample) :
    (groupMeans (fun i =>
      correctAt (.list (ts.map Sample.row)) (.list (ts.map Sample.candidate)) i -
      correctAt (.list (ts.map Sample.row)) (.list (ts.map Sample.reference)) i)
      (groupsOf (ts.map Sample.row))).Perm
    ((ts.map fun t => sourceOf t.row).dedup.map (Sample.meanGain ts)) := by
  refine ((groupsOf_perm ts).map _).trans (.of_eq ?_)
  rw [List.map_map]
  refine List.map_congr_left fun group _ => ?_
  have hmembers : (ts.filter fun t => sourceOf t.row = group) =
      (ts.zipIdx.filter fun e => sourceOf e.1.row = group).map Prod.fst := by
    conv_lhs => rw [← List.zipIdx_map_fst 0 ts, List.filter_map]
    rfl
  rw [Function.comp_apply, Sample.meanGain]
  simp only [hmembers, List.map_map, List.length_map]
  congr 3
  refine List.map_congr_left fun e he => ?_
  have hat := List.mem_zipIdx_iff_getElem?.mp (List.mem_of_mem_filter he)
  simp [Sample.gain, correctAt, Value.list?, hat]

theorem meanGain_perm (h : ts.Perm ts') : Sample.meanGain ts = Sample.meanGain ts' := by
  funext group
  have hmembers := h.filter fun t => sourceOf t.row = group
  simp only [Sample.meanGain, (hmembers.map Sample.gain).sum_eq, hmembers.length_eq]

theorem RowsSound.perm (h : ts.Perm ts') (hsound : RowsSound (ts.map Sample.row)) :
    RowsSound (ts'.map Sample.row) where
  length := (h.map Sample.row).length_eq ▸ hsound.length
  sound row hrow := hsound.sound row ((h.map _).mem_iff.mpr hrow)
  distinct := ((h.map _).map _).nodup_iff.mp hsound.distinct
  groups := by
    have hle := hsound.groups
    rw [(groupsOf_perm _).length_eq, List.length_map] at hle ⊢
    rwa [← (h.map fun t => sourceOf t.row).dedup.length_eq]

theorem PredictionsSound.perm (h : ts.Perm ts')
    (hsound : PredictionsSound (ts.map Sample.row) (.list (ts.map f))) :
    PredictionsSound (ts'.map Sample.row) (.list (ts'.map f)) := by
  obtain ⟨_, heq, -, hsound⟩ := hsound
  obtain rfl := Value.list.inj heq
  exact ⟨_, rfl, by simp, fun item hitem => hsound item ((h.map f).mem_iff.mpr hitem)⟩

/-- `assess` of the columns of some samples. -/
def assessSamples (ts : List Sample) : Value → Value → Value → Except Raised Assessment :=
  assess (.list (ts.map Sample.row)) (.list (ts.map Sample.candidate))
    (.list (ts.map Sample.reference))

theorem assessSamples_perm (h : ts.Perm ts')
    (hr : assessSamples ts comparisons minimumClusters futureWindow = .ok r) :
    assessSamples ts' comparisons minimumClusters futureWindow = .ok r := by
  obtain ⟨c, m, w, _, hc, hm, hw, heq, hrows, hcandidate, hreference, rfl⟩ := assess_eq_ok.mp hr
  obtain rfl := Value.list.inj heq
  refine assess_eq_ok.mpr ⟨c, m, w, _, hc, hm, hw, rfl, hrows.perm h, hcandidate.perm h,
    hreference.perm h, ?_⟩
  refine assessment_perm ((groupMeans_perm ts).trans (.trans ?_ (groupMeans_perm ts').symm))
  rw [meanGain_perm h]
  exact (h.map _).dedup.map _

end

/-! ## The two sides -/

theorem groupMeans_swap (f g : Nat → Int) (groups : List (String × List Nat)) :
    groupMeans (fun i => g i - f i) groups = (groupMeans (fun i => f i - g i) groups).map (-·) := by
  rw [groupMeans, groupMeans, List.map_map]
  refine List.map_congr_left fun group _ => ?_
  have hsum : (group.2.map fun i => g i - f i).sum = -(group.2.map fun i => f i - g i).sum := by
    rw [List.sum_neg, List.map_map]
    simp [Function.comp_def]
  rw [Function.comp_apply, hsum, Int.cast_neg, neg_div]

theorem correctAt_le (h : correctAt rows a i = 1 → correctAt rows b i = 1) :
    correctAt rows a i ≤ correctAt rows b i := by
  have hbits (p : Value) : correctAt rows p i = 0 ∨ correctAt rows p i = 1 := by
    rw [correctAt]
    split
    · exact .inr rfl
    · exact .inl rfl
  rcases hbits a with ha | ha <;> rcases hbits b with hb | hb <;> omega

/-- A candidate that is right wherever another one is passes the gate when the other does, with at
least its score; of two sides at most one passes against the other; and the order of the rows is
immaterial. -/
theorem assess_monotone_antisymm_perm :
    (∀ rows a b reference comparisons minimumClusters futureWindow ra rb,
      assess rows a reference comparisons minimumClusters futureWindow = .ok ra →
      assess rows b reference comparisons minimumClusters futureWindow = .ok rb →
      (∀ i, correctAt rows a i = 1 → correctAt rows b i = 1) →
        (ra.clusterGate → rb.clusterGate) ∧ ra.exploratoryScore ≤ rb.exploratoryScore) ∧
    (∀ rows candidate reference comparisons minimumClusters futureWindow r r',
      assess rows candidate reference comparisons minimumClusters futureWindow = .ok r →
      assess rows reference candidate comparisons minimumClusters futureWindow = .ok r' →
        ¬ (r.clusterGate ∧ r'.clusterGate)) ∧
    (∀ (ts ts' : List Sample) comparisons minimumClusters futureWindow r, ts.Perm ts' →
      (assessSamples ts comparisons minimumClusters futureWindow = .ok r ↔
        assessSamples ts' comparisons minimumClusters futureWindow = .ok r)) := by
  refine ⟨?_, ?_, fun ts ts' _ _ _ r h => ⟨assessSamples_perm h, assessSamples_perm h.symm⟩⟩
  · intro rows a b reference comparisons minimumClusters futureWindow ra rb ha hb hcorrect
    obtain ⟨c, m, w, items, ⟨rfl, hc, -⟩, ⟨rfl, -⟩, rfl, rfl, -, -, -, rfl⟩ := assess_eq_ok.mp ha
    obtain ⟨c', m', w', items', ⟨heqc, -⟩, ⟨heqm, -⟩, heqw, heq, -, -, -, rfl⟩ := assess_eq_ok.mp hb
    obtain rfl := Value.int.inj heqc
    obtain rfl := Value.int.inj heqm
    obtain rfl := Value.bool.inj heqw
    obtain rfl := Value.list.inj heq
    refine assessment_mono (le_trans (by decide) hc) (groupMeans_le (fun i => ?_) _)
    exact Int.sub_le_sub_right (correctAt_le (hcorrect i)) _
  · rintro rows candidate reference comparisons minimumClusters futureWindow r r' h h'
      ⟨hgate, hgate'⟩
    obtain ⟨c, m, w, items, ⟨rfl, -⟩, ⟨rfl, -⟩, rfl, rfl, -, -, -, rfl⟩ := assess_eq_ok.mp h
    obtain ⟨c', m', w', items', ⟨heqc, -⟩, ⟨heqm, -⟩, heqw, heq, -, -, -, rfl⟩ := assess_eq_ok.mp h'
    obtain rfl := Value.list.inj heq
    have hmore := (clusterGate_iff.mp hgate).2.2.1
    have hmore' := (clusterGate_iff.mp hgate').2.2.1
    rw [groupMeans_swap, List.countP_map, List.countP_map] at hmore'
    simp only [Function.comp_def, Left.neg_neg_iff, Left.neg_pos_iff] at hmore'
    exact lt_asymm hmore hmore'

/-- Twenty rows, each in a group of its own; the candidate answers the first `n` of them right and
the reference none. -/
def samples (n : Nat) : List Sample :=
  (List.range 20).map fun i =>
    { row := .dict [("id", .str (String.ofList (List.replicate (i + 1) 'a'))), ("label", .int 1),
        ("file", .str (String.ofList (List.replicate (i + 1) 'b')))]
      candidate := .int (if i < n then 1 else 0)
      reference := .int 0 }

/-- The result for seven right answers. -/
def sevenRight : Assessment :=
  { clusters := 20, wins := 7, losses := 0, comparisons := 4, clusterGate := true
    meanGainNumerator := 7, meanGainDenominator := 20, exploratoryScore := 350000
    futureWindowObserved := false, callerFutureWindowClaim := false, publicRewardEligible := false
    reason := "independent time/source-owner receipts must be verified by the accepting owner" }

/-- One more right answer, the two sides exchanged, and the rows reversed. -/
theorem sevenRight_passes :
    let rows := Value.list ((samples 7).map Sample.row)
    let seven := Value.list ((samples 7).map Sample.candidate)
    let eight := Value.list ((samples 8).map Sample.candidate)
    let reference := Value.list ((samples 7).map Sample.reference)
    assess rows seven reference (.int 4) (.int 20) (.bool false) = .ok sevenRight ∧
      (∃ r, assess rows eight reference (.int 4) (.int 20) (.bool false) = .ok r ∧ r.clusterGate ∧
        350000 ≤ r.exploratoryScore) ∧
      (∃ r, assess rows reference seven (.int 4) (.int 20) (.bool false) = .ok r ∧
        ¬ r.clusterGate) ∧
      assessSamples (samples 7).reverse (.int 4) (.int 20) (.bool false) = .ok sevenRight := by
  intro rows seven eight reference
  obtain ⟨hseven, height, hswapped, hbelow⟩ :
      assess rows seven reference (.int 4) (.int 20) (.bool false) = .ok sevenRight ∧
        assess rows eight reference (.int 4) (.int 20) (.bool false) =
          .ok { sevenRight with wins := 8, meanGainNumerator := 2, meanGainDenominator := 5,
                                exploratoryScore := 400000 } ∧
        assess rows reference seven (.int 4) (.int 20) (.bool false) =
          .ok { sevenRight with wins := 0, losses := 7, clusterGate := false,
                                meanGainNumerator := -7, exploratoryScore := 0 } ∧
        ∀ i < 20, correctAt rows seven i = 1 → correctAt rows eight i = 1 := by
    decide +kernel
  obtain ⟨hmono, hantisymm, hperm⟩ := assess_monotone_antisymm_perm
  have hmore := hmono rows seven eight reference _ _ _ _ _ hseven height fun i hi => by
    rcases Nat.lt_or_ge i 20 with hlt | hge
    · exact hbelow i hlt hi
    · simp [correctAt, seven, rows, Value.list?, samples, hge] at hi
  refine ⟨hseven, ⟨_, height, hmore.1 rfl, hmore.2⟩, ⟨_, hswapped, fun hgate => ?_⟩, ?_⟩
  · exact hantisymm rows seven reference _ _ _ _ _ hseven hswapped ⟨rfl, hgate⟩
  · exact (hperm (samples 7) _ _ _ _ _ (List.reverse_perm _).symm).mp hseven

end Trillionnium.Pon.Evaluation
