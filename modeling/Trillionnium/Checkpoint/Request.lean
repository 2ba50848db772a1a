import Trillionnium.Hash
import Trillionnium.Lib.Fallible
import Trillionnium.Lib.Layout

/-!
# Checkpoint requests

`ExternalCheckpointV2` with its canonical encoding: 672 bytes at fixed offsets, the last 32 of them
a checksum of the others. A checkpoint is built by `new` only, so its fields are valid and its
checksum is theirs. Then `encode_request_v2` and `decode_request_v2`. An index outside the frame
panics, and the daemon stops with it. The decoder compares the length of a compare request only
after it has read the scope, so it is total and canonical on all frames but the compare requests
that end before their scope does. SHA-256 is a parameter.
-/

namespace Trillionnium.Checkpoint

open Lib
open Pon (Hash)

inductive DecodeError
  | wrongLength
  | wrongMagic
  | unsupportedSchema
  | invalidField (name : String)
  | checksumMismatch

/-- `EffectWatermarkV2`, as `from_persisted_parts` builds it. -/
structure EffectWatermark where
  scope : Hash
  journalId : Hash
  sequence : U64
  chainChecksum : Hash
  nonzero : scope ≠ .zero ∧ journalId ≠ .zero ∧ chainChecksum ≠ .zero

def EffectWatermark.fromPersistedParts (scope journalId : Hash) (sequence : U64)
    (chainChecksum : Hash) : Except DecodeError EffectWatermark :=
  if h : scope ≠ .zero ∧ journalId ≠ .zero ∧ chainChecksum ≠ .zero then
    .ok ⟨scope, journalId, sequence, chainChecksum, h⟩
  else .error (.invalidField "effect watermark")

structure Fields where
  scope : Hash
  generation : U64
  predecessorChecksum : Hash
  authorityJournalId : Hash
  authorityVerifierProfileRef : Hash
  authorityRevision : U64
  authorityStateRecordChecksum : Hash
  authorityRecordChainChecksum : Hash
  applicationHostConfigRef : Hash
  applicationProjectionProfileRef : Hash
  applicationAuthorityBindingManifestChecksum : Hash
  applicationCommittedHeadRowChecksum : Hash
  applicationRecoveryClosureChecksum : Hash
  applicationBlockId : Hash
  applicationHeight : U64
  applicationStateRoot : Hash
  applicationGeneration : U64
  applicationTimestampMs : U64
  effectJournalId : Hash
  effectProfileChecksum : Hash
  effectExactWatermark : EffectWatermark

def Fields.validate (f : Fields) : Except DecodeError Unit := do
  [(f.scope, "scope"), (f.authorityJournalId, "safety journal id"),
    (f.authorityVerifierProfileRef, "safety verifier profile"),
    (f.authorityStateRecordChecksum, "safety state record checksum"),
    (f.authorityRecordChainChecksum, "safety record chain checksum"),
    (f.applicationHostConfigRef, "application host config"),
    (f.applicationProjectionProfileRef, "application projection profile"),
    (f.applicationAuthorityBindingManifestChecksum, "application safety binding manifest checksum"),
    (f.applicationCommittedHeadRowChecksum, "application committed head row checksum"),
    (f.applicationRecoveryClosureChecksum, "application recovery closure checksum"),
    (f.effectJournalId, "signer journal id"), (f.effectProfileChecksum, "signer profile checksum"),
    (f.applicationBlockId, "application block id"), (f.applicationStateRoot,
      "application state root")].forM
      fun (value, name) => require (value ≠ Hash.zero) (.invalidField name)
  require (f.generation = 0 → f.predecessorChecksum = .zero)
    (.invalidField "generation-zero predecessor")
  require (f.generation ≠ 0 → f.predecessorChecksum ≠ .zero) (.invalidField "successor predecessor")
  require (f.effectExactWatermark.scope = f.scope) (.invalidField "signer watermark scope")
  require (f.effectExactWatermark.journalId = f.effectJournalId)
    (.invalidField "signer watermark journal id")

def recordMagic : Bytes := Bytes.ofString "TRNMCP02"

def recordSchema : U64 := 2

def Fields.pieces (f : Fields) : List Bytes :=
  [recordMagic, .be 8 recordSchema, f.scope.bytes, .be 8 f.generation, f.predecessorChecksum.bytes,
    f.authorityJournalId.bytes, f.authorityVerifierProfileRef.bytes, .be 8 f.authorityRevision,
    f.authorityStateRecordChecksum.bytes, f.authorityRecordChainChecksum.bytes,
    f.applicationHostConfigRef.bytes, f.applicationProjectionProfileRef.bytes,
    f.applicationAuthorityBindingManifestChecksum.bytes,
    f.applicationCommittedHeadRowChecksum.bytes, f.applicationRecoveryClosureChecksum.bytes,
    f.applicationBlockId.bytes, .be 8 f.applicationHeight, f.applicationStateRoot.bytes,
    .be 8 f.applicationGeneration, .be 8 f.applicationTimestampMs, f.effectJournalId.bytes,
    f.effectProfileChecksum.bytes, f.effectExactWatermark.scope.bytes,
    f.effectExactWatermark.journalId.bytes, .be 8 f.effectExactWatermark.sequence,
    f.effectExactWatermark.chainChecksum.bytes]

/-- The widths of the fields; they begin at the offsets 0, 8, 16, 48, 56, 88, 120, 152, 160, 192,
224, 256, 288, 320, 352, 384, 416, 424, 456, 464, 472, 504, 536, 568, 600, 608 and 640 of the
record. -/
def recordWidths : List Nat :=
  [8, 8, 32, 8, 32, 32, 32, 8, 32, 32, 32, 32, 32, 32, 32, 32, 8, 32, 8, 8, 32, 32, 32, 32,
    8, 32, 32]

def recordBytes : Nat := 672

section
variable (sha256 : Bytes → Hash)

def checksumMessage (front : Bytes) : Bytes :=
  let domain := Bytes.ofString "trnm.external-node-checkpoint.value.v2"
  Bytes.ofString "trnm.domain.hash.v1" ++ Bytes.ofNatBE 8 domain.length ++ domain ++
    Bytes.ofNatBE 8 front.length ++ front

def Fields.checksum (f : Fields) : Hash := sha256 (checksumMessage f.pieces.flatten)

structure ExternalCheckpoint where
  fields : Fields
  valid : fields.validate = .ok ()

namespace ExternalCheckpoint

variable {sha256}

def scope (v : ExternalCheckpoint) : Hash := v.fields.scope

variable (sha256)

def new (fields : Fields) : Except DecodeError ExternalCheckpoint :=
  match h : fields.validate with
  | .ok () => .ok ⟨fields, h⟩
  | .error e => .error e

def encodeCanonical (v : ExternalCheckpoint) : Bytes :=
  v.fields.pieces.flatten ++ (v.fields.checksum sha256).bytes

/-- Bytes copied into a zeroed array. -/
def readArray (bs : Bytes) : Hash := ⟨(bs ++ List.replicate 32 0).take 32, by simp⟩

def decodeCanonicalExact (encoded : Bytes) : Except DecodeError ExternalCheckpoint :=
  match Bytes.cut recordWidths encoded with
  | some [magic, schema, scope, generation, predecessor, authorityJournal, verifier, revision,
      stateRecord, chain, host, projection, binding, head, closure, block, height, root,
      applicationGeneration, timestamp, effectJournal, profile, watermarkScope, watermarkJournal,
      sequence, watermarkChain, checksum] => do
    require (magic = recordMagic) .wrongMagic
    require (Bytes.readBE 64 schema = recordSchema) .unsupportedSchema
    let watermark ← (EffectWatermark.fromPersistedParts (readArray watermarkScope)
      (readArray watermarkJournal)
      (Bytes.readBE 64 sequence) (readArray watermarkChain)).mapError fun _ =>
        .invalidField "signer watermark"
    let value ← new ⟨readArray scope, Bytes.readBE 64 generation, readArray predecessor,
      readArray authorityJournal, readArray verifier, Bytes.readBE 64 revision,
      readArray stateRecord, readArray chain, readArray host, readArray projection,
      readArray binding, readArray head, readArray closure, readArray block, Bytes.readBE 64 height,
      readArray root, Bytes.readBE 64 applicationGeneration, Bytes.readBE 64 timestamp,
      readArray effectJournal, readArray profile, watermark⟩
    require (readArray checksum = value.fields.checksum sha256) .checksumMismatch
    pure value
  | _ => .error .wrongLength

/-! ## Round trips -/

variable {sha256} {v : ExternalCheckpoint} {bs encoded : Bytes} {h : Hash} {fields : Fields}

@[simp] theorem readArray_bytes : readArray h.bytes = h :=
  Hash.ext_bytes (by simp [readArray, h.size_eq])

theorem bytes_readArray (hlength : bs.length = 32) : (readArray bs).bytes = bs := by
  simp [readArray, hlength]

theorem new_eq_ok : new fields = .ok v ↔ v.fields = fields := by
  obtain ⟨fields', hvalid⟩ := v
  unfold new
  split
  · next h =>
    rw [Except.ok.injEq, mk.injEq]
    exact eq_comm
  · next e h =>
    simp only [reduceCtorEq, false_iff]
    rintro rfl
    cases hvalid.symm.trans h

theorem fromPersistedParts_eq_ok {scope journalId chainChecksum : Hash} {sequence : U64}
    {w : EffectWatermark} :
    EffectWatermark.fromPersistedParts scope journalId sequence chainChecksum = .ok w ↔
      w.scope = scope ∧ w.journalId = journalId ∧ w.sequence = sequence ∧
      w.chainChecksum = chainChecksum := by
  obtain ⟨scope', journalId', sequence', chainChecksum', hnonzero⟩ := w
  unfold EffectWatermark.fromPersistedParts
  split
  · simp [eq_comm]
  · next hzero =>
    simp only [reduceCtorEq, false_iff]
    rintro ⟨rfl, rfl, rfl, rfl⟩
    exact hzero hnonzero

theorem map_length_pieces {f : Fields} {checksum : Hash} :
    (f.pieces ++ [checksum.bytes]).map List.length = recordWidths := by
  have hmagic : recordMagic.length = 8 := by decide +kernel
  simp [Fields.pieces, recordWidths, Hash.size_eq, hmagic]

theorem encodeCanonical_eq_flatten :
    v.encodeCanonical sha256 = (v.fields.pieces ++ [(v.fields.checksum sha256).bytes]).flatten := by
  simp [encodeCanonical]

theorem length_encodeCanonical : (v.encodeCanonical sha256).length = recordBytes := by
  rw [encodeCanonical_eq_flatten, List.length_flatten, map_length_pieces]
  rfl

/-- Decoding accepts the canonical encodings and nothing else. -/
theorem decodeCanonicalExact_eq_ok :
    decodeCanonicalExact sha256 encoded = .ok v ↔ v.encodeCanonical sha256 = encoded := by
  constructor
  · intro h
    unfold decodeCanonicalExact at h
    split at h
    · next hcut =>
      obtain ⟨hlengths, rfl⟩ := Bytes.cut_eq_some.mp hcut
      simp only [recordWidths, List.map_cons, List.map_nil, List.cons.injEq, and_true] at hlengths
      simp only [bind_eq_ok, require_eq_ok, mapError_eq_ok, pure_eq_ok, new_eq_ok,
        fromPersistedParts_eq_ok] at h
      obtain ⟨_, rfl, _, hschema, watermark, ⟨h1, h2, h3, h4⟩, value, hfields, _, hchecksum,
        rfl⟩ := h
      rw [encodeCanonical_eq_flatten, ← hchecksum]
      simp only [hfields, Fields.pieces, h1, h2, h3, h4, ← hschema, hlengths, bytes_readArray,
        Bytes.be_readBE, List.cons_append, List.nil_append]
    · cases h
  · rintro rfl
    rw [encodeCanonical_eq_flatten, decodeCanonicalExact, Bytes.cut_flatten map_length_pieces]
    have hread (n : U64) : Bytes.readBE 64 (.be 8 n) = n := Bytes.readBE_be rfl
    simp only [Fields.pieces, List.cons_append, List.nil_append]
    simp only [bind_eq_ok, require_eq_ok, mapError_eq_ok, pure_eq_ok, new_eq_ok,
      fromPersistedParts_eq_ok, readArray_bytes, hread]
    exact ⟨(), trivial, (), trivial, v.fields.effectExactWatermark, ⟨rfl, rfl, rfl, rfl⟩, v, rfl,
      (), rfl, rfl⟩

end ExternalCheckpoint

end

/-! ## Requests -/

open ExternalCheckpoint

/-- What ends the decoding without a request. -/
inductive Failure
  | protocol (message : String)
  | panicked

inductive Request
  | load (scope : Hash)
  | compareAndAdvance (expected : Option ExternalCheckpoint) (target : ExternalCheckpoint)

def requestMagic : Bytes := Bytes.ofString "CP2R"
def protocolVersion : UInt8 := 2
def opCompareAndAdvance : UInt8 := 1
def opLoad : UInt8 := 2

/-- The nine bytes before the scope. -/
def header (op flag : UInt8) : Bytes := requestMagic ++ [protocolVersion, op, flag, 0, 0]

section
variable (sha256 : Bytes → Hash)

def encodeRequest : Request → Bytes
  | .load scope => header opLoad 0 ++ scope.bytes
  | .compareAndAdvance expected target =>
    header opCompareAndAdvance (if expected.isSome then 1 else 0) ++ (target.scope.bytes ++
      ((expected.map (·.encodeCanonical sha256)).getD [] ++ target.encodeCanonical sha256))

/-- The expected checkpoint of a compare request, which the flag says to be there. -/
def decodeExpected (flag : UInt8) (encoded : Bytes) : Except Failure (Option ExternalCheckpoint) :=
  if flag = 1 then
    ((decodeCanonicalExact sha256 encoded).map some).mapError fun _ =>
      .protocol "expected checkpoint"
  else .ok none

/-- The arm of a compare request, from byte 9 on. -/
def decodeCompare (flag : UInt8) (rest : Bytes) : Except Failure Request := do
  require (32 ≤ rest.length) .panicked
  let scope := readArray (rest.take 32)
  let records := rest.drop 32
  let targetStart := if flag = 1 then recordBytes else 0
  require (records.length = targetStart + recordBytes) (.protocol "compare request length")
  let expected ← decodeExpected sha256 flag (records.take targetStart)
  let target ← (decodeCanonicalExact sha256 (records.drop targetStart)).mapError
    fun _ => .protocol "target checkpoint"
  require (target.scope = scope ∧ ∀ value ∈ expected, value.scope = scope)
    (.protocol "checkpoint scope mismatch")
  pure (.compareAndAdvance expected target)

def decodeRequest (body : Bytes) : Except Failure Request :=
  match body with
  | m0 :: m1 :: m2 :: m3 :: version :: op :: flag :: r0 :: r1 :: rest =>
    if [m0, m1, m2, m3] = requestMagic ∧ version = protocolVersion then
      if op = opLoad ∧ rest.length = 32 ∧ [flag, r0, r1] = [0, 0, 0] then
        .ok (.load (readArray rest))
      else if op = opCompareAndAdvance ∧ flag ≤ 1 ∧ [r0, r1] = [0, 0] then
        decodeCompare sha256 flag rest
      else .error (.protocol "unsupported checkpoint request")
    else .error (.protocol "request header")
  | _ => .error (.protocol "request header")

/-- One turn of the loop of `serve_unix`; `handle` is what the store does with a request, and `none`
is the end of the daemon. A frame that is refused is answered on its own connection; a panic unwinds
through the loop. -/
def serveFrame {σ : Type} (handle : σ → Request → Option σ) (s : σ) (body : Bytes) : Option σ :=
  match decodeRequest sha256 body with
  | .ok request => handle s request
  | .error (.protocol _) => some s
  | .error .panicked => none

/-! ## What is said of a frame -/

/-- The checkpoints of a request are of one scope. -/
def Request.OneScope : Request → Prop
  | .load _ => True
  | .compareAndAdvance expected target => ∀ value ∈ expected, value.scope = target.scope

structure DecodedCanonically (body : Bytes) : Prop where
  total : decodeRequest sha256 body ≠ .error .panicked
  exact : ∀ request, decodeRequest sha256 body = .ok request ↔
    request.OneScope ∧ encodeRequest sha256 request = body
  /-- A frame that is no request does not stop the daemon. -/
  isolated : (∀ request, decodeRequest sha256 body ≠ .ok request) →
    ∀ (σ : Type) (handle : σ → Request → Option σ) (s : σ), serveFrame sha256 handle s body = some s

end

/-- The header of a compare request with fewer bytes behind it than a scope has. -/
def CutScope (body : Bytes) : Prop :=
  ∃ flag rest, flag ≤ 1 ∧ rest.length < 32 ∧ body = header opCompareAndAdvance flag ++ rest

section
variable {sha256 : Bytes → Hash} {flag : UInt8} {rest body : Bytes} {request : Request}

theorem flag_cases (h : flag ≤ 1) : flag = 0 ∨ flag = 1 := by
  rw [UInt8.le_iff_toNat_le] at h
  rw [← UInt8.toNat_inj, ← UInt8.toNat_inj]
  exact Nat.le_one_iff_eq_zero_or_eq_one.mp h

/-- The part of a compare request in which an expected checkpoint stands. -/
def expectedBytes (sha256 : Bytes → Hash) (expected : Option ExternalCheckpoint) : Bytes :=
  (expected.map (·.encodeCanonical sha256)).getD []

theorem length_expectedBytes :
    (expectedBytes sha256 expected).length = if expected.isSome then recordBytes else 0 := by
  cases expected <;> simp [expectedBytes, length_encodeCanonical]

theorem decodeExpected_eq_ok (hflag : flag ≤ 1)
    (hlength : encoded.length = if flag = 1 then recordBytes else 0) :
    decodeExpected sha256 flag encoded = .ok expected ↔
      flag = (if expected.isSome then 1 else 0) ∧ expectedBytes sha256 expected = encoded := by
  rcases flag_cases hflag with rfl | rfl
  · obtain rfl : encoded = [] := List.length_eq_zero_iff.mp (by simpa using hlength)
    cases expected <;> simp [decodeExpected, expectedBytes]
  · cases expected <;> simp [decodeExpected, expectedBytes, map_eq_ok, decodeCanonicalExact_eq_ok]

/-- The requests that a compare frame stands for. -/
theorem decodeCompare_eq_ok (hflag : flag ≤ 1) : decodeCompare sha256 flag rest = .ok request ↔
    ∃ expected target, request = .compareAndAdvance expected target ∧ request.OneScope ∧
      flag = (if expected.isSome then 1 else 0) ∧
      rest = target.scope.bytes ++ (expectedBytes sha256 expected ++
        target.encodeCanonical sha256) := by
  simp only [decodeCompare, bind_eq_ok, require_eq_ok, mapError_eq_ok, pure_eq_ok,
    decodeCanonicalExact_eq_ok]
  constructor
  · rintro ⟨_, hscope, _, hlength, expected, hexpected, target, htarget, _, ⟨hsame, hvalue⟩, rfl⟩
    rw [decodeExpected_eq_ok hflag (by simp at hlength ⊢; omega)] at hexpected
    refine ⟨expected, target, rfl, fun value hv => (hvalue value hv).trans hsame.symm,
      hexpected.1, ?_⟩
    rw [htarget, hexpected.2, hsame, bytes_readArray (by simpa using hscope), List.take_append_drop,
      List.take_append_drop]
  · rintro ⟨expected, target, rfl, hsame, hexpected, rfl⟩
    have hdrop : (target.scope.bytes ++ (expectedBytes sha256 expected ++
        target.encodeCanonical sha256)).drop 32 =
        expectedBytes sha256 expected ++ target.encodeCanonical sha256 :=
          List.drop_left' target.scope.size_eq
    have htake : (target.scope.bytes ++ (expectedBytes sha256 expected ++
        target.encodeCanonical sha256)).take 32 =
        target.scope.bytes := List.take_left' target.scope.size_eq
    have hstart : (if flag = 1 then recordBytes else 0) =
        (expectedBytes sha256 expected).length := by
      rw [length_expectedBytes, hexpected]
      cases expected <;> rfl
    rw [hdrop, htake, hstart, List.take_left, List.drop_left, readArray_bytes]
    refine ⟨(), by simp [target.scope.size_eq], (), by simp [length_encodeCanonical], expected, ?_,
      target, rfl, (), ⟨rfl, hsame⟩, rfl⟩
    exact (decodeExpected_eq_ok hflag hstart.symm).mpr ⟨hexpected, rfl⟩

theorem decodeCompare_ne_panicked (h : 32 ≤ rest.length) :
    decodeCompare sha256 flag rest ≠ .error .panicked := by
  have hexpected {encoded : Bytes} : decodeExpected sha256 flag encoded ≠ .error .panicked := by
    unfold decodeExpected
    split
    · exact mapError_ne_error nofun
    · nofun
  refine bind_ne_error (require_ne_error (.inl h)) fun _ =>
    bind_ne_error (require_ne_error (.inr nofun)) fun _ => ?_
  refine bind_ne_error hexpected fun _ => bind_ne_error (mapError_ne_error nofun) fun _ => ?_
  exact bind_ne_error (require_ne_error (.inr nofun)) fun _ => nofun

theorem decodeCompare_of_cut (h : rest.length < 32) :
    decodeCompare sha256 flag rest = .error .panicked := by
  rw [decodeCompare, require, if_neg (Nat.not_le.mpr h)]
  rfl

/-! ## The decoder on every frame -/

theorem requestMagic_eq : requestMagic = [67, 80, 50, 82] := by decide +kernel

theorem decodeRequest_load {scope : Hash} :
    decodeRequest sha256 (header opLoad 0 ++ scope.bytes) = .ok (.load scope) := by
  simp [header, requestMagic_eq, decodeRequest, scope.size_eq]

theorem decodeRequest_compare (hflag : flag ≤ 1) :
    decodeRequest sha256 (header opCompareAndAdvance flag ++ rest) =
      decodeCompare sha256 flag rest := by
  simp [header, requestMagic_eq, decodeRequest, hflag, opLoad, opCompareAndAdvance]

/-- A frame that begins as no request does is refused. -/
theorem decodeRequest_other (hload : ∀ scope : Hash, body ≠ header opLoad 0 ++ scope.bytes)
    (hcompare : ∀ flag rest, flag ≤ 1 → body ≠ header opCompareAndAdvance flag ++ rest) :
    ∃ message, decodeRequest sha256 body = .error (.protocol message) := by
  unfold decodeRequest
  split
  · next m0 m1 m2 m3 version op flag r0 r1 rest =>
    split_ifs with hheader hop hop
    · obtain ⟨rfl, hlength, hzero⟩ := hop
      simp only [requestMagic_eq, List.cons.injEq, and_true] at hheader hzero
      obtain ⟨⟨rfl, rfl, rfl, rfl⟩, rfl⟩ := hheader
      obtain ⟨rfl, rfl, rfl⟩ := hzero
      exact absurd (by rw [bytes_readArray hlength, header, requestMagic_eq]; rfl)
        (hload (readArray rest))
    · obtain ⟨rfl, hflag, hzero⟩ := hop
      simp only [requestMagic_eq, List.cons.injEq, and_true] at hheader hzero
      obtain ⟨⟨rfl, rfl, rfl, rfl⟩, rfl⟩ := hheader
      obtain ⟨rfl, rfl⟩ := hzero
      exact absurd (by rw [header, requestMagic_eq]; rfl) (hcompare flag rest hflag)
    · exact ⟨_, rfl⟩
    · exact ⟨_, rfl⟩
  · exact ⟨_, rfl⟩

theorem header_append_inj :
    header op flag ++ rest = header op' flag' ++ rest' ↔ op = op' ∧ flag = flag' ∧
      rest = rest' := by
  simp [header, requestMagic_eq]

theorem encodeRequest_eq_load {scope : Hash} :
    encodeRequest sha256 request = header opLoad 0 ++ scope.bytes ↔ request = .load scope := by
  cases request with
  | load scope' =>
    rw [encodeRequest, header_append_inj, Request.load.injEq]
    exact ⟨fun h => Hash.ext_bytes h.2.2, fun h => ⟨rfl, rfl, h ▸ rfl⟩⟩
  | compareAndAdvance expected target =>
    simp [encodeRequest, header_append_inj, opLoad, opCompareAndAdvance]

theorem encodeRequest_eq_compare :
    encodeRequest sha256 request = header opCompareAndAdvance flag ++ rest ↔
      ∃ expected target, request = .compareAndAdvance expected target ∧
        flag = (if expected.isSome then 1 else 0) ∧
        rest = target.scope.bytes ++ (expectedBytes sha256 expected ++
          target.encodeCanonical sha256) := by
  cases request with
  | load scope => simp [encodeRequest, header_append_inj, opLoad, opCompareAndAdvance]
  | compareAndAdvance expected target =>
    rw [encodeRequest, header_append_inj]
    constructor
    · rintro ⟨-, rfl, rfl⟩
      exact ⟨expected, target, rfl, rfl, rfl⟩
    · rintro ⟨_, _, h, rfl, rfl⟩
      cases h
      exact ⟨rfl, rfl, rfl⟩

theorem encodeRequest_ne_other (hload : ∀ scope : Hash, body ≠ header opLoad 0 ++ scope.bytes)
    (hcompare : ∀ flag rest, flag ≤ 1 → body ≠ header opCompareAndAdvance flag ++ rest) :
    encodeRequest sha256 request ≠ body := by
  rintro rfl
  cases request with
  | load scope => exact hload scope rfl
  | compareAndAdvance expected target =>
    refine hcompare _ _ ?_ rfl
    split <;> decide

theorem decodeRequest_ne_panicked (h : ¬ CutScope body) :
    decodeRequest sha256 body ≠ .error .panicked := by
  by_cases hload : ∃ scope : Hash, body = header opLoad 0 ++ scope.bytes
  · obtain ⟨scope, rfl⟩ := hload
    rw [decodeRequest_load]
    nofun
  by_cases hcompare : ∃ flag rest, flag ≤ 1 ∧ body = header opCompareAndAdvance flag ++ rest
  · obtain ⟨flag, rest, hflag, rfl⟩ := hcompare
    rw [decodeRequest_compare hflag]
    exact decodeCompare_ne_panicked (Nat.not_lt.mp fun hcut => h ⟨flag, rest, hflag, hcut, rfl⟩)
  · push Not at hload hcompare
    obtain ⟨message, hmessage⟩ := decodeRequest_other hload hcompare
    rw [hmessage]
    nofun

theorem decodeRequest_eq_ok :
    decodeRequest sha256 body = .ok request ↔
      request.OneScope ∧ encodeRequest sha256 request = body := by
  by_cases hload : ∃ scope : Hash, body = header opLoad 0 ++ scope.bytes
  · obtain ⟨scope, rfl⟩ := hload
    rw [decodeRequest_load, encodeRequest_eq_load, Except.ok.injEq, eq_comm, iff_and_self]
    rintro rfl
    trivial
  by_cases hcompare : ∃ flag rest, flag ≤ 1 ∧ body = header opCompareAndAdvance flag ++ rest
  · obtain ⟨flag, rest, hflag, rfl⟩ := hcompare
    rw [decodeRequest_compare hflag, decodeCompare_eq_ok hflag, encodeRequest_eq_compare]
    grind
  · push Not at hload hcompare
    obtain ⟨message, hmessage⟩ : ∃ message,
        decodeRequest sha256 body = .error (.protocol message) :=
      decodeRequest_other hload hcompare
    simp [hmessage, encodeRequest_ne_other hload hcompare]

theorem serveFrame_of_refused (htotal : decodeRequest sha256 body ≠ .error .panicked)
    (hrefused : ∀ request, decodeRequest sha256 body ≠ .ok request) {σ : Type}
    {handle : σ → Request → Option σ} {s : σ} : serveFrame sha256 handle s body = some s := by
  unfold serveFrame
  split
  · next request h => exact absurd h (hrefused request)
  · rfl
  · next h => exact absurd h htotal

end

/-- The decoder is total and canonical on a frame unless it is a compare request cut before the end
of its scope. -/
theorem decodedCanonically_iff (sha256 : Bytes → Hash) (body : Bytes) :
    DecodedCanonically sha256 body ↔ ¬ CutScope body := by
  constructor
  · rintro ⟨htotal, -, -⟩ ⟨flag, rest, hflag, hlength, rfl⟩
    exact htotal ((decodeRequest_compare hflag).trans (decodeCompare_of_cut hlength))
  · intro h
    have htotal : decodeRequest sha256 body ≠ .error .panicked := decodeRequest_ne_panicked h
    exact ⟨htotal, fun _ => decodeRequest_eq_ok, fun hrefused _ _ _ =>
      serveFrame_of_refused htotal hrefused⟩

/-- The nine bytes of a compare header panic the decoder. -/
theorem compareHeader_panics : ¬ DecodedCanonically Hash.checksum [67, 80, 50, 82, 2, 1, 0, 0, 0] :=
  fun h => h.total rfl

end Trillionnium.Checkpoint
