import Mathlib.Data.String.Basic
import Trillionnium.Hash
import Trillionnium.Lib.Canonical
import Trillionnium.Lib.Checked
import Trillionnium.Lib.Code
import Trillionnium.Lib.Delimited
import Trillionnium.Lib.Fallible
import Trillionnium.Lib.Text

/-!
# Oracle snapshots

`OracleSnapshot` and the checks of `OraclePolicy::validate_snapshot`. Values are signed 128-bit
words; the drift from the median is counted in basis points, with a product that saturates and a
quotient that is cut off. SHA-256 is a parameter.

The drift of an accepted value from the median is under the bound of the policy, unless the
saturating product loses it, and a snapshot is bound by its hash: the separator byte `0xff` is in no
UTF-8 text, and the sources are counted.
-/

namespace Trillionnium.Oracle

open Lib Lib.Text
open Pon (Hash)

/-- `i128`, read by `BitVec.toInt`. -/
abbrev I128 := BitVec 128

def maxDeviationBpsCap : U32 := 10000

inductive OracleError
  | emptySourceId
  | nonCanonicalSourceId (raw canonical : String)
  | emptyFeedId
  | nonCanonicalFeedId (raw canonical : String)
  | invalidWindow (startMs endMs : U64)
  | invalidWindowTimestamp (windowEndMs snapshotTsMs : U64)
  | duplicateSources
  | nonCanonicalSourceOrdering (previous current : String)
  | emptySnapshotHash
  | nonCanonicalSnapshotHash (raw canonical : String)
  | snapshotHashMismatch (expected actual : String)
  | invalidSnapshotHashFormat (raw : String)
  | invalidPolicy (message : String)
  | invalidSampleCount
  | futureSnapshot (snapshotTsMs nowTsMs : U64)
  | staleSnapshot (snapshotTsMs nowTsMs maxStalenessMs : U64)
  | insufficientSources (minSources actualSources sampleCount : U32)
  | deviationExceeded (deviationBps maxDeviationBps : U32)
  | inconsistentSampleCount (actualSources sampleCount : U32)
  | updateRateExceeded (sampleCount maxUpdateRatePerWindow : U32)
  deriving DecidableEq

/-- A source identifier is its text: one that is deserialized need not be canonical. -/
structure OracleSnapshot where
  feedId : String
  value : I128
  sources : List String
  sampleCount : U32
  median : Option I128
  mad : Option U128
  windowStartMs : U64
  windowEndMs : U64
  snapshotTsMs : U64
  snapshotHash : String
  deriving DecidableEq

structure OraclePolicy where
  minSources : U32
  maxStalenessMs : U64
  maxDeviationBps : U32
  maxUpdateRatePerWindow : U32

/-! ## Checks -/

def toAsciiLowercase (s : String) : String := String.ofList (s.toList.map Char.toLower)

/-- The check of an identifier, with the errors of its kind. -/
def validateCanonicalId (empty : OracleError) (nonCanonical : String → String → OracleError)
    (raw : String) : Except OracleError String := do
  let canonical := toAsciiLowercase (trim raw)
  require (canonical ≠ "") empty
  require (raw = canonical ∧ ¬ raw.toList.any fun c => isWhitespace c || isControl c)
    (nonCanonical raw canonical)
  pure canonical

def validateCanonicalSourceId : String → Except OracleError String :=
  validateCanonicalId .emptySourceId .nonCanonicalSourceId

def validateCanonicalFeedId : String → Except OracleError String :=
  validateCanonicalId .emptyFeedId .nonCanonicalFeedId

def validateSnapshotWindow (windowStartMs windowEndMs snapshotTsMs : U64) :
    Except OracleError Unit := do
  require (windowStartMs ≤ windowEndMs) (.invalidWindow windowStartMs windowEndMs)
  require (windowEndMs ≤ snapshotTsMs) (.invalidWindowTimestamp windowEndMs snapshotTsMs)

def validateSampleCountAgainstSources (sampleCount actualSources : U32) :
    Except OracleError Unit := do
  require (sampleCount ≠ 0) .invalidSampleCount
  require (actualSources ≤ sampleCount) (.inconsistentSampleCount actualSources sampleCount)

/-- One round of the first loop of `validate_snapshot_sources`: the sources seen so far and the next
one. -/
def collectSource (seen : List String) (source : String) : Except OracleError (List String) := do
  let canonical ← validateCanonicalSourceId source
  require (canonical ∉ seen) .duplicateSources
  pure (seen ++ [canonical])

def ensureOrdered : List String → Except OracleError Unit
  | previous :: current :: rest => do
    require (¬ current < previous) (.nonCanonicalSourceOrdering previous current)
    ensureOrdered (current :: rest)
  | _ => pure ()

def validateSnapshotSources (sources : List String) : Except OracleError Unit := do
  let canonicalSequence ← sources.foldlM collectSource []
  ensureOrdered canonicalSequence

def isCanonicalLowerHexDigest (raw : String) : Bool :=
  let bytes := Bytes.ofString raw
  bytes.length = 64 && bytes.all fun b => isAsciiDigit b || (0x61 ≤ b && b ≤ 0x66)

/-! ## The hash -/

namespace OracleSnapshot

def optional : Option (BitVec 128) → Bytes := Bytes.optional fun v => Bytes.ofNat 16 v.toNat

/-- What stands behind the sources. -/
def tail (s : OracleSnapshot) : Bytes :=
  Bytes.ofNat 4 s.sampleCount.toNat ++ ([0xff] ++ (optional s.median ++ (optional s.mad ++
    (Bytes.ofNat 8 s.windowStartMs.toNat ++ (Bytes.ofNat 8 s.windowEndMs.toNat ++
      Bytes.ofNat 8 s.snapshotTsMs.toNat)))))

def hashMessage (s : OracleSnapshot) : Bytes :=
  Bytes.ofString s.feedId ++ 0xff :: (Bytes.ofNat 16 s.value.toNat ++ ([0xff] ++
    (Bytes.ofNat 4 (BitVec.ofNat 32 s.sources.length).toNat ++
      (Delimited.terminated 0xff (s.sources.map Bytes.ofString) ++ s.tail))))

variable (sha256 : Bytes → Hash)

def computeHash (s : OracleSnapshot) : String := (sha256 s.hashMessage).hex

def validateHash (s : OracleSnapshot) : Except OracleError Unit := do
  let canonical := toAsciiLowercase (trim s.snapshotHash)
  require (canonical ≠ "") .emptySnapshotHash
  require (s.snapshotHash = canonical) (.nonCanonicalSnapshotHash s.snapshotHash canonical)
  require (isCanonicalLowerHexDigest s.snapshotHash = true)
    (.invalidSnapshotHashFormat s.snapshotHash)
  let expected := s.computeHash sha256
  require (s.snapshotHash = expected) (.snapshotHashMismatch expected s.snapshotHash)

/-- Two neighbours are the same. -/
def hasNeighbours : List String → Bool
  | a :: b :: rest => a = b || hasNeighbours (b :: rest)
  | _ => false

def new (feedId : String) (value : I128) (sources : List String) (sampleCount : U32)
    (median : Option I128) (mad : Option U128) (windowStartMs windowEndMs snapshotTsMs : U64) :
    Except OracleError OracleSnapshot := do
  let feedId ← validateCanonicalFeedId feedId
  validateSnapshotWindow windowStartMs windowEndMs snapshotTsMs
  let _ ← sources.mapM validateCanonicalSourceId
  let sources := sortedBy id sources
  require (¬ hasNeighbours sources) .duplicateSources
  validateSampleCountAgainstSources sampleCount (.ofNat 32 sources.length)
  let snapshot : OracleSnapshot :=
    ⟨feedId, value, sources, sampleCount, median, mad, windowStartMs, windowEndMs, snapshotTsMs, ""⟩
  pure { snapshot with snapshotHash := snapshot.computeHash sha256 }

end OracleSnapshot

/-! ## Policies -/

def deviationReachesBoundary (deviationBps maxDeviationBps : U32) : Bool :=
  maxDeviationBps < deviationBps || (maxDeviationBps ≠ 0 && deviationBps = maxDeviationBps)

/-- `abs_diff` of two signed words. -/
def absDiff (value baseline : I128) : Nat := (value.toInt - baseline.toInt).natAbs

def deviationBps (value baseline : I128) : U32 :=
  if baseline = value then 0
  else if baseline = 0 then maxDeviationBpsCap
  else
    let numerator := min (absDiff value baseline * maxDeviationBpsCap.toNat) (2 ^ 128 - 1)
    let denominator := baseline.toInt.natAbs
    .ofNat 32 (min (numerator / denominator) maxDeviationBpsCap.toNat)

namespace OraclePolicy

def validate (p : OraclePolicy) : Except OracleError Unit := do
  require (p.minSources ≠ 0) (.invalidPolicy "min_sources must be > 0")
  require (p.maxStalenessMs ≠ 0) (.invalidPolicy "max_staleness_ms must be > 0")
  require (p.maxDeviationBps ≤ maxDeviationBpsCap)
    (.invalidPolicy "max_deviation_bps must be <= 10000")
  require (p.maxUpdateRatePerWindow ≠ 0) (.invalidPolicy "max_update_rate_per_window must be > 0")
  require (p.minSources ≤ p.maxUpdateRatePerWindow)
    (.invalidPolicy "min_sources must be <= max_update_rate_per_window")

/-- The guard on the drift from the median. -/
def validateDrift (p : OraclePolicy) (s : OracleSnapshot) : Except OracleError Unit :=
  match s.median with
  | some median =>
    let deviation := deviationBps s.value median
    require (¬ deviationReachesBoundary deviation p.maxDeviationBps)
      (.deviationExceeded deviation p.maxDeviationBps)
  | none => pure ()

def validateSnapshot (sha256 : Bytes → Hash) (p : OraclePolicy) (s : OracleSnapshot)
    (nowTsMs : U64) : Except OracleError Unit := do
  p.validate
  let _ ← validateCanonicalFeedId s.feedId
  validateSnapshotWindow s.windowStartMs s.windowEndMs s.snapshotTsMs
  validateSnapshotSources s.sources
  s.validateHash sha256
  require (s.snapshotTsMs ≤ nowTsMs) (.futureSnapshot s.snapshotTsMs nowTsMs)
  require (nowTsMs.toNat - s.snapshotTsMs.toNat ≤ p.maxStalenessMs.toNat)
    (.staleSnapshot s.snapshotTsMs nowTsMs p.maxStalenessMs)
  validateSampleCountAgainstSources s.sampleCount (.ofNat 32 s.sources.length)
  require (p.minSources.toNat ≤ s.sources.length ∧ p.minSources ≤ s.sampleCount)
    (.insufficientSources p.minSources (.ofNat 32 s.sources.length) s.sampleCount)
  require (s.sampleCount ≤ p.maxUpdateRatePerWindow)
    (.updateRateExceeded s.sampleCount p.maxUpdateRatePerWindow)
  p.validateDrift s

/-- What the later results use of an accepted snapshot. -/
theorem of_validateSnapshot {p : OraclePolicy} (h : p.validateSnapshot sha256 s nowTsMs = .ok ()) :
    p.maxDeviationBps ≤ maxDeviationBpsCap ∧ s.snapshotHash = s.computeHash sha256 ∧
    p.validateDrift s = .ok () := by
  simp only [validateSnapshot, validate, OracleSnapshot.validateHash, bind_eq_ok,
    require_eq_ok] at h
  obtain ⟨_, ⟨_, -, _, -, _, hcap, -⟩, _, -, _, -, _, -, _, ⟨_, -, _, -, _, -, hhash⟩, _, -, _, -,
    _, -, _, -, _, -, hdrift⟩ := h
  exact ⟨hcap, hhash, hdrift⟩

end OraclePolicy

/-! ## The drift of an accepted value -/

section
variable {sha256 : Bytes → Hash} {p : OraclePolicy} {s t : OracleSnapshot} {nowTsMs : U64}
  {value median : I128}

theorem not_deviationReachesBoundary : ¬ deviationReachesBoundary deviation bound ↔
    deviation.toNat < bound.toNat ∨ bound = 0 ∧ deviation = 0 := by
  simp only [deviationReachesBoundary, Bool.or_eq_true, Bool.and_eq_true, decide_eq_true_eq,
    BitVec.lt_def, ← BitVec.toNat_inj, ne_eq]
  omega

theorem natAbs_toInt_le : median.toInt.natAbs ≤ 2 ^ 127 := by
  have := median.toInt_lt
  have := median.le_toInt
  omega

/-- The drift in basis points where the median is another number than the value and zero. -/
theorem toNat_deviationBps (hne : value ≠ median) (hzero : median ≠ 0) :
    (deviationBps value median).toNat =
    min (min (10000 * absDiff value median) (2 ^ 128 - 1) / median.toInt.natAbs) 10000 := by
  rw [deviationBps, if_neg hne.symm, if_neg hzero, BitVec.toNat_ofNat, Nat.mul_comm]
  exact Nat.mod_eq_of_lt (lt_of_le_of_lt (min_le_right _ _) (by decide))

/-- The value of an accepted snapshot is the median, or is closer to it than the bound says, or so
far away that the product saturates; under a bound of zero it is the median up to one basis
point. -/
theorem accepted_drift (h : p.validateSnapshot sha256 s nowTsMs = .ok ())
    (hmedian : s.median = some median) :
    (0 < p.maxDeviationBps.toNat → 10000 * absDiff s.value median < 2 ^ 128 → s.value = median ∨
        10000 * absDiff s.value median < p.maxDeviationBps.toNat * median.toInt.natAbs) ∧
      (p.maxDeviationBps = 0 → median.toInt.natAbs ≤ 10000 * absDiff s.value median →
        s.value = median) := by
  obtain ⟨hcap, -, hdrift⟩ := OraclePolicy.of_validateSnapshot h
  have hcap : p.maxDeviationBps.toNat ≤ 10000 := hcap
  simp only [OraclePolicy.validateDrift, hmedian, require_eq_ok,
    not_deviationReachesBoundary] at hdrift
  by_cases hne : s.value = median
  · exact ⟨fun _ _ => .inl hne, fun _ _ => hne⟩
  have hzero : median ≠ 0 := by
    rintro rfl
    rw [deviationBps, if_neg (Ne.symm hne), if_pos rfl] at hdrift
    rcases hdrift with hlt | ⟨-, heq⟩
    · exact absurd hlt (not_lt.mpr hcap)
    · exact absurd heq (by decide)
  have hpos : 0 < median.toInt.natAbs := Int.natAbs_pos.mpr fun heq =>
    hzero (BitVec.toInt_inj.mp heq)
  have hlarge := @natAbs_toInt_le median
  constructor
  · intro hbound hfits
    refine .inr ((Nat.div_lt_iff_lt_mul hpos).mp ?_)
    have hproduct : min (10000 * absDiff s.value median) (2 ^ 128 - 1) =
        10000 * absDiff s.value median :=
      min_eq_left (Nat.le_sub_one_of_lt hfits)
    rw [toNat_deviationBps hne hzero, hproduct] at hdrift
    rcases hdrift with hlt | ⟨hnone, -⟩
    · exact (min_lt_iff.mp hlt).resolve_right (not_lt.mpr hcap)
    · exact absurd hbound (by rw [hnone]; decide)
  · intro hnone hfar
    exfalso
    rcases hdrift with hlt | ⟨-, heq⟩
    · rw [hnone] at hlt
      exact absurd hlt (Nat.not_lt_zero _)
    · have hcount := congrArg BitVec.toNat heq
      rw [toNat_deviationBps hne hzero] at hcount
      have hquotient := (Nat.min_eq_zero_iff.mp hcount).resolve_right (by decide)
      rw [Nat.div_eq_zero_iff] at hquotient
      omega

end

def samplePolicy (maxDeviationBps : U32) : OraclePolicy := ⟨2, 5000, maxDeviationBps, 60⟩

def sampleSnapshot (value median : I128) : OracleSnapshot :=
  let s : OracleSnapshot := ⟨"btc-usd", value, ["a", "b"], 2, some median, none, 1, 2, 3, ""⟩
  { s with snapshotHash := s.computeHash Hash.checksum }

theorem sample_accepted_drift :
    ((103 : I128) = 100 ∨ 10000 * absDiff 103 100 < 500 * (100 : I128).toInt.natAbs) ∧
      (samplePolicy 500).validateSnapshot Hash.checksum (sampleSnapshot 105 100) 10 ≠ .ok () ∧
      (samplePolicy 0).validateSnapshot Hash.checksum (sampleSnapshot 101 100) 10 ≠ .ok () := by
  have hvalid : (samplePolicy 500).validateSnapshot Hash.checksum (sampleSnapshot 103 100) 10 =
      .ok () := by
    decide +kernel
  refine ⟨(accepted_drift hvalid rfl).1 (by decide) (by decide), fun h => ?_, fun h => ?_⟩
  · exact absurd ((accepted_drift h rfl).1 (by decide) (by decide)) (by decide)
  · exact absurd ((accepted_drift h rfl).2 rfl (by decide)) (by decide)

/-- The exact match is accepted also where the median is zero, and there is nothing under the
bound. -/
theorem zero_median_accepted :
    (samplePolicy 500).validateSnapshot Hash.checksum (sampleSnapshot 0 0) 10 = .ok () ∧
      ¬ 10000 * absDiff 0 0 < 500 * (0 : I128).toInt.natAbs := by
  decide +kernel

/-! ## What the hash binds -/

section
variable {sha256 : Bytes → Hash} {s t : OracleSnapshot} {value : I128}

theorem not_mem_ofString : (0xff : UInt8) ∉ Bytes.ofString text := fun hmem =>
  absurd (Bytes.lt_of_mem_ofString hmem) (by decide)

theorem optional_append_inj
    (h : OracleSnapshot.optional v ++ x = OracleSnapshot.optional w ++ y) : v = w ∧ x = y := by
  have hencode (v : Option (BitVec 128)) :
      (Code.uint 128 16 (by decide)).option.encode v = some (OracleSnapshot.optional v) := by
    cases v <;> rfl
  exact Code.value_append_inj _ (hencode v) (hencode w) h

namespace OracleSnapshot

theorem length_tail_lt : s.tail.length < 2 ^ 32 := by
  have hoptional (v : Option (BitVec 128)) : (optional v).length ≤ 17 := by
    cases v <;> simp [optional, Bytes.optional]
  have hmedian := hoptional s.median
  have hmad := hoptional s.mad
  simp only [tail, List.length_append, Bytes.length_ofNat, List.length_singleton]
  omega

/-- Every field but the hash can be read off what is hashed. -/
theorem hashMessage_inj (h : s.hashMessage = t.hashMessage) :
    s = { t with snapshotHash := s.snapshotHash } := by
  obtain ⟨feedId, value, sources, sampleCount, median, mad, windowStartMs, windowEndMs,
    snapshotTsMs, snapshotHash⟩ := s
  obtain ⟨feedId', value', sources', sampleCount', median', mad', windowStartMs', windowEndMs',
    snapshotTsMs', _⟩ := t
  simp only [hashMessage] at h
  obtain ⟨hfeed, h⟩ := Delimited.append_cons_inj not_mem_ofString not_mem_ofString h
  obtain ⟨hvalue, h⟩ := Code.word_append_inj (by decide) h
  obtain ⟨hcount, h⟩ := Code.word_append_inj (by decide) (List.append_cancel_left h)
  have hlength : sources.length % 2 ^ 32 = sources'.length % 2 ^ 32 := by
    simpa using congrArg BitVec.toNat hcount
  have htexts (l : List String) : ∀ text ∈ l.map Bytes.ofString, (0xff : UInt8) ∉ text := by
    simp [not_mem_ofString]
  obtain ⟨hsources, h⟩ := Delimited.terminated_append_inj_of_mod (htexts sources) (htexts sources')
    length_tail_lt length_tail_lt (by simpa using hlength) h
  simp only [tail] at h
  obtain ⟨hsample, h⟩ := Code.word_append_inj (by decide) h
  obtain ⟨hmedian, h⟩ := optional_append_inj (List.append_cancel_left h)
  obtain ⟨hmad, h⟩ := optional_append_inj h
  obtain ⟨hstart, h⟩ := Code.word_append_inj (by decide) h
  obtain ⟨hend, h⟩ := Code.word_append_inj (by decide) h
  have htimestamp := (Code.uint 64 8 (by decide)).encode_inj rfl (congrArg some h.symm)
  have htext := List.map_injective_iff.mpr (fun _ _ => Bytes.ofString_inj) hsources
  rw [Bytes.ofString_inj hfeed, hvalue, htext, hsample, hmedian, hmad, hstart, hend, htimestamp]

variable {feedId : String} {sources sources' : List String} {sampleCount : U32} {mad : Option U128}
  {windowStartMs windowEndMs snapshotTsMs : U64}

/-- The sources are sorted before anything but their number is used. -/
theorem new_of_perm {median : Option I128} (hperm : sources.Perm sources')
    (h : new sha256 feedId value sources sampleCount median mad windowStartMs windowEndMs
      snapshotTsMs = .ok s) :
    new sha256 feedId value sources' sampleCount median mad windowStartMs windowEndMs snapshotTsMs =
      .ok s := by
  have hsorted : sortedBy id sources = sortedBy id sources' :=
    (sortedBy_eq_iff Function.injective_id).mpr hperm
  simp only [new, bind_eq_ok] at h ⊢
  obtain ⟨feed, hfeed, _, hwindow, _, hsources, hrest⟩ := h
  obtain ⟨_, hsources'⟩ := exists_mapM_eq_ok.mpr fun source hsource =>
    exists_mapM_eq_ok.mp ⟨_, hsources⟩ source (hperm.mem_iff.mpr hsource)
  exact ⟨feed, hfeed, (), hwindow, _, hsources', hsorted ▸ hrest⟩

end OracleSnapshot

/-- Accepted snapshots with one hash are the same, and a snapshot does not depend on the order in
which its sources are given. -/
theorem snapshot_bound_by_hash (sha256 : Bytes → Hash) :
    (∀ p q s t now now', OraclePolicy.validateSnapshot sha256 p s now = .ok () →
        OraclePolicy.validateSnapshot sha256 q t now' = .ok () →
        Set.InjOn sha256 {s.hashMessage, t.hashMessage} →
        s.snapshotHash = t.snapshotHash → s = t) ∧
      ∀ feedId value sources sources' sampleCount median mad windowStartMs windowEndMs
        snapshotTsMs s, sources.Perm sources' →
          (OracleSnapshot.new sha256 feedId value sources sampleCount median mad windowStartMs
              windowEndMs snapshotTsMs = .ok s ↔
            OracleSnapshot.new sha256 feedId value sources' sampleCount median mad windowStartMs
              windowEndMs snapshotTsMs = .ok s) := by
  refine ⟨fun p q s t now now' hs ht hclean hhash => ?_, fun _ _ _ _ _ _ _ _ _ _ _ hperm => ?_⟩
  · have hexpected := (OraclePolicy.of_validateSnapshot hs).2.1
    have hexpected' := (OraclePolicy.of_validateSnapshot ht).2.1
    have hdigest : sha256 s.hashMessage = sha256 t.hashMessage := by
      refine Hash.ext_bytes (Bytes.hex_inj ?_)
      exact hexpected.symm.trans (hhash.trans hexpected')
    have hmessage := hclean (Set.mem_insert _ _) (Set.mem_insert_of_mem _ rfl) hdigest
    rw [OracleSnapshot.hashMessage_inj hmessage, hhash]
  · exact ⟨OracleSnapshot.new_of_perm hperm, OracleSnapshot.new_of_perm hperm.symm⟩

end

theorem sample_snapshot_bound :
    OracleSnapshot.new Hash.checksum "btc-usd" 103 ["b", "a"] 2 (some 100) none 1 2 3 =
      .ok (sampleSnapshot 103 100) ∧
    (samplePolicy 500).validateSnapshot Hash.checksum (sampleSnapshot 103 100) 10 = .ok () ∧
      sampleSnapshot 103 100 = sampleSnapshot 103 100 := by
  have hvalid : (samplePolicy 500).validateSnapshot Hash.checksum (sampleSnapshot 103 100) 10 =
      .ok () := by
    decide +kernel
  obtain ⟨hbound, hperm⟩ := snapshot_bound_by_hash Hash.checksum
  refine ⟨?_, hvalid, hbound _ _ _ _ _ _ hvalid hvalid (by simp) rfl⟩
  exact (hperm _ _ ["a", "b"] ["b", "a"] _ _ _ _ _ _ _ (by decide)).mp (by decide +kernel)

end Trillionnium.Oracle
