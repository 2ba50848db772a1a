import Trillionnium.Pon.WorkProduct

/-!
# Work certificates

`prove` and `verify` of `pon_work.rs` and `verify` of `work_oracle.py`. A certificate is a version,
the matrices, their claimed product and the trace. Both verifiers accept exactly what the prover
writes for the task, when the ticket of its trace meets the target.
-/

namespace Trillionnium.Pon.Work

open Lib

abbrev PROOF_BYTES : Nat := 4 + 12 * CELLS + 32

structure VerifiedWork where
  challenge : Hash
  task : Hash
  ticket : Hash
  product : List Nat

def version : Bytes := Bytes.ofString "PNW1"

def certificate (a b product : List Nat) (trace : Hash) : Bytes :=
  version ++ (fieldBytes a ++ fieldBytes b ++ fieldBytes product) ++ trace.bytes

/-- The words between the version and the trace. -/
def matrices (bytes : Bytes) : List Nat := words ((bytes.drop 4).take (3 * CELLS * 4))

section
variable (sha256 : Bytes → Hash)

def prove (challenge : Hash) (a b : List Nat) : Except Fault Bytes := do
  let (product, trace) ← evaluate sha256 challenge a b
  return certificate a b product trace

def ticketOf (challenge : Hash) (trace : Bytes) : Hash :=
  hash sha256 "ticket" [challenge.bytes, trace]

def verify (challenge expectedTask target : Hash) (bytes : Bytes) : Except Fault VerifiedWork := do
  require (bytes.length = PROOF_BYTES) (.error .length)
  require (bytes.take 4 = version) (.error .version)
  require (target ≠ Hash.zero) (.error .target)
  let a := (matrices bytes).take CELLS
  let tail := (matrices bytes).drop CELLS
  let b := tail.take CELLS
  let claimed := tail.drop CELLS
  validate claimed
  let actualTask ← taskId sha256 a b
  require (actualTask = expectedTask) (.error .task)
  let traceClaim := bytes.drop (4 + 3 * CELLS * 4)
  let ticket := ticketOf sha256 challenge traceClaim
  require (ticket ≤ target) (.error .target)
  let (product, trace) ← evaluate sha256 challenge a b
  require (trace.bytes = traceClaim) (.error .transcript)
  require (product = claimed) (.error .product)
  return ⟨challenge, actualTask, ticket, product⟩

namespace Oracle

def verify (c task : Hash) (target proof : Bytes) : Except Raised (Hash × List Nat) := do
  require (proof.length = PROOF_BYTES) (.valueError "LENGTH")
  require (proof.take 4 = version) (.valueError "VERSION")
  let values := words ((proof.take (proof.length - 32)).drop 4)
  let a := values.take CELLS
  let b := (values.take (2 * CELLS)).drop CELLS
  let p := values.drop (2 * CELLS)
  check p
  require ((← taskId sha256 a b) = task) (.valueError "TASK")
  let trace := proof.drop (proof.length - 32)
  let ticket ← H sha256 "ticket" [c.bytes, trace]
  require (target.length = 32 ∧ target ≠ List.replicate 32 0 ∧ ticket.bytes ≤ target)
    (.valueError "TARGET")
  let (product, digest) ← evaluate sha256 c a b
  require (digest.bytes = trace) (.valueError "TRANSCRIPT")
  require (p = product) (.valueError "PRODUCT")
  return (ticket, product)

end Oracle

end

/-! ## Words and bytes -/

theorem length_fieldBytes (values : List Nat) : (fieldBytes values).length = 4 * values.length := by
  induction values with
  | nil => rfl
  | cons v values ih =>
    rw [fieldBytes, List.flatMap_cons, List.length_append, Bytes.length_ofNat, ← fieldBytes, ih,
      List.length_cons]
    omega

theorem words_fieldBytes (h : ∀ v ∈ values, v < 256 ^ 4) : words (fieldBytes values) = values := by
  induction values with
  | nil => rfl
  | cons v values ih =>
    obtain ⟨hv, h⟩ := List.forall_mem_cons.mp h
    have hcons : fieldBytes (v :: values) = Bytes.ofNat 4 v ++ fieldBytes values :=
      List.flatMap_cons ..
    obtain ⟨p, q, r, s, hbytes⟩ := List.length_eq_four.mp (Bytes.length_ofNat 4 v)
    rw [hcons, hbytes]
    simp only [List.cons_append, List.nil_append, words]
    rw [ih h, ← hbytes, Bytes.toNat_ofNat hv]

variable {a b : List Nat}

theorem fieldBytes_inj (ha : Reduced a n) (hb : Reduced b n)
    (h : fieldBytes a = fieldBytes b) : a = b := by
  have hword {v : Nat} (hv : v < Q) : v < 256 ^ 4 := hv.trans (by decide)
  rw [← words_fieldBytes fun v hv => hword (ha.lt v hv), h, words_fieldBytes fun v hv =>
    hword (hb.lt v hv)]

theorem fieldBytes_words (bytes : Bytes) (n : Nat) (h : bytes.length = 4 * n) :
    fieldBytes (words bytes) = bytes ∧ (words bytes).length = n := by
  induction n generalizing bytes with
  | zero =>
    cases List.length_eq_zero_iff.mp h
    exact ⟨rfl, rfl⟩
  | succ n ih =>
    obtain ⟨p, q, r, s, rest, rfl⟩ : ∃ p q r s rest, bytes = p :: q :: r :: s :: rest := by
      match bytes, h with
      | p :: q :: r :: s :: rest, _ => exact ⟨p, q, r, s, rest, rfl⟩
    obtain ⟨hbytes, hlength⟩ := ih rest (by simp only [List.length_cons] at h; omega)
    have hword : Bytes.ofNat 4 (Bytes.toNat [p, q, r, s]) = [p, q, r, s] :=
      Bytes.ofNat_toNat [p, q, r, s]
    refine ⟨?_, by rw [words, List.length_cons, hlength]⟩
    rw [words, fieldBytes, List.flatMap_cons, ← fieldBytes, hword, hbytes]
    rfl

/-! ## The parts of a certificate -/

theorem eq_certificate (hlength : bytes.length = PROOF_BYTES)
    (hversion : bytes.take 4 = version) (htrace : trace.bytes = bytes.drop (4 + 3 * CELLS * 4)) :
    bytes = certificate ((matrices bytes).take CELLS) (((matrices bytes).drop CELLS).take CELLS)
      (((matrices bytes).drop CELLS).drop CELLS) trace := by
  have hmiddle : ((bytes.drop 4).take (3 * CELLS * 4)).length = 4 * (3 * CELLS) := by
    rw [List.length_take, List.length_drop, hlength]
    decide
  have hsplit : (bytes.drop 4).take (3 * CELLS * 4) ++ bytes.drop (4 + 3 * CELLS * 4) =
      bytes.drop 4 := by
    rw [← List.drop_drop, List.take_append_drop]
  rw [certificate, List.append_assoc (fieldBytes _), ← fieldBytes_append, ← fieldBytes_append,
    List.take_append_drop, List.take_append_drop, matrices, (fieldBytes_words _ _ hmiddle).1,
    htrace, List.append_assoc, hsplit, ← hversion, List.take_append_drop]

section Parts
variable {a b product : List Nat} {trace : Hash}

theorem length_middle (ha : Reduced a CELLS) (hb : Reduced b CELLS)
    (hproduct : Reduced product CELLS) :
    (fieldBytes a ++ fieldBytes b ++ fieldBytes product).length = 3 * CELLS * 4 := by
  rw [List.length_append, List.length_append, length_fieldBytes, length_fieldBytes,
    length_fieldBytes, ha.length, hb.length, hproduct.length]
  rfl

theorem length_version : version.length = 4 := by decide

theorem length_certificate (ha : Reduced a CELLS) (hb : Reduced b CELLS)
    (hproduct : Reduced product CELLS) :
    (certificate a b product trace).length = PROOF_BYTES := by
  rw [certificate, List.length_append, List.length_append, length_middle ha hb hproduct,
    trace.size_eq, length_version]
  rfl

theorem take_certificate : (certificate a b product trace).take 4 = version := by
  rw [certificate, List.append_assoc, List.take_left' length_version]

theorem drop_certificate (ha : Reduced a CELLS) (hb : Reduced b CELLS)
    (hproduct : Reduced product CELLS) :
    (certificate a b product trace).drop (4 + 3 * CELLS * 4) = trace.bytes := by
  rw [certificate, List.drop_left' (by rw [List.length_append, length_middle ha hb hproduct,
    length_version])]

theorem matrices_certificate (ha : Reduced a CELLS) (hb : Reduced b CELLS)
    (hproduct : Reduced product CELLS) :
    matrices (certificate a b product trace) = a ++ (b ++ product) := by
  have hwords : ∀ v ∈ a ++ (b ++ product), v < 256 ^ 4 := by
    intro v hv
    have hlt : v < Q := by
      rcases List.mem_append.mp hv with hv | hv
      · exact ha.lt v hv
      rcases List.mem_append.mp hv with hv | hv
      · exact hb.lt v hv
      · exact hproduct.lt v hv
    exact hlt.trans (by decide)
  rw [matrices, certificate, List.append_assoc, List.drop_left' length_version,
    List.take_left' (length_middle ha hb hproduct), List.append_assoc, ← fieldBytes_append,
    ← fieldBytes_append, words_fieldBytes hwords]

end Parts

/-- The slices of the oracle are those of the native code. -/
theorem slices_eq (hlength : bytes.length = PROOF_BYTES) :
    words ((bytes.take (bytes.length - 32)).drop 4) = matrices bytes ∧
      bytes.drop (bytes.length - 32) = bytes.drop (4 + 3 * CELLS * 4) := by
  rw [hlength, List.drop_take]
  exact ⟨rfl, rfl⟩

theorem slices_values_eq (values : List Nat) :
    (values.take (2 * CELLS)).drop CELLS = (values.drop CELLS).take CELLS ∧
      values.drop (2 * CELLS) = (values.drop CELLS).drop CELLS := by
  rw [List.drop_take, List.drop_drop]
  exact ⟨rfl, rfl⟩

/-! ## What is accepted -/

section Verify
variable {sha256 : Bytes → Hash} {challenge task target : Hash} {bytes : Bytes}

/-- The native verifier accepts the certificates of the prover for its task whose ticket meets the
target. -/
theorem verify_eq_ok :
    verify sha256 challenge task target bytes = .ok work ↔ target ≠ Hash.zero ∧ ∃ a b product trace,
      taskId sha256 a b = .ok task ∧ evaluate sha256 challenge a b = .ok (product, trace) ∧
      bytes = certificate a b product trace ∧ ticketOf sha256 challenge trace.bytes ≤ target ∧
      work = ⟨challenge, task, ticketOf sha256 challenge trace.bytes, product⟩ := by
  simp only [verify, bind_eq_ok, require_eq_ok, pure_eq_ok]
  constructor
  · rintro ⟨_, hlength, _, hversion, _, htarget, _, -, _, htask, _, rfl, _, hticket,
      ⟨product, trace⟩, hresult, _, htrace, _, hproduct, rfl⟩
    dsimp only at hproduct htrace
    refine ⟨htarget, _, _, product, trace, htask, hresult, ?_, ?_, ?_⟩
    · rw [hproduct]
      exact eq_certificate hlength hversion htrace
    · rw [htrace]
      exact hticket
    · rw [htrace]
  · rintro ⟨htarget, a, b, product, trace, htask, hresult, rfl, hticket, rfl⟩
    obtain ⟨ha, hb, hproduct⟩ := reduced_of_evaluate hresult
    rw [matrices_certificate ha hb hproduct, drop_certificate ha hb hproduct,
      List.take_left' ha.length, List.drop_left' ha.length, List.take_left' hb.length,
      List.drop_left' hb.length]
    exact ⟨(), length_certificate ha hb hproduct, (), take_certificate, (), htarget, (),
      hproduct.validate, task, htask, (), rfl, (), hticket, (product, trace), hresult, (), rfl, (),
      rfl, rfl⟩

theorem framed_task (ha : Reduced a CELLS) (hb : Reduced b CELLS) :
    Framed "task" [fieldBytes a, fieldBytes b] := by
  refine ⟨by decide, fun part hpart => ?_⟩
  have hlength : part.length = 4 * CELLS := by
    rcases List.mem_pair.mp hpart with rfl | rfl
    · rw [length_fieldBytes, ha.length]
    · rw [length_fieldBytes, hb.length]
  rw [hlength]
  decide

theorem taskId_eq_ok : Oracle.taskId sha256 a b = .ok task ↔ taskId sha256 a b = .ok task := by
  simp only [Oracle.taskId, taskId, bind_eq_ok, check_eq_ok, validate_eq_ok, H_eq_ok, pure_eq_ok]
  constructor
  · rintro ⟨_, ha, _, hb, -, heq⟩
    exact ⟨(), ha, (), hb, heq⟩
  · rintro ⟨_, ha, _, hb, heq⟩
    exact ⟨(), ha, (), hb, framed_task ha hb, heq⟩

/-- The oracle accepts what the native verifier accepts, with the same ticket and product. -/
theorem oracle_verify_eq_ok :
    Oracle.verify sha256 challenge task target.bytes bytes = .ok r ↔
      ∃ work, verify sha256 challenge task target bytes = .ok work ∧
        r = (work.ticket, work.product) := by
  by_cases hlength : bytes.length = PROOF_BYTES
  · obtain ⟨hmiddle, hlast⟩ := slices_eq hlength
    obtain ⟨hsecond, hthird⟩ := slices_values_eq (matrices bytes)
    have hframed : Framed "ticket" [challenge.bytes, bytes.drop (4 + 3 * CELLS * 4)] := by
      refine ⟨by decide, ?_⟩
      simp only [List.forall_mem_cons, List.length_drop, challenge.size_eq, hlength]
      decide
    have hzero : target.bytes ≠ List.replicate 32 0 ↔ target ≠ Hash.zero :=
      ⟨fun h heq => h (by rw [heq]; rfl), fun h heq => h (Hash.ext_bytes heq)⟩
    simp only [Oracle.verify, verify, bind_eq_ok, require_eq_ok, pure_eq_ok, check_eq_ok,
      validate_eq_ok, taskId_eq_ok, H_eq_ok, ← evaluate_eq_ok, hmiddle, hlast, hsecond, hthird,
      hzero, target.size_eq]
    constructor
    · rintro ⟨_, -, _, hversion, _, hp, t, htask, _, ht, ticket, ⟨-, rfl⟩, _, ⟨-, htarget, hticket⟩,
        result, hresult, _, htrace, _, hproduct, rfl⟩
      exact ⟨_, ⟨(), hlength, (), hversion, (), htarget, (), hp, t, htask, (), ht, (), hticket,
        result, hresult, (), htrace, (), hproduct.symm, rfl⟩, rfl⟩
    · rintro ⟨_, ⟨_, -, _, hversion, _, htarget, _, hp, t, htask, _, ht, _, hticket, result,
        hresult, _, htrace, _, hproduct, rfl⟩, rfl⟩
      exact ⟨(), hlength, (), hversion, (), hp, t, htask, (), ht, _, ⟨hframed, rfl⟩, (),
        ⟨trivial, htarget, hticket⟩, result, hresult, (), htrace, (), hproduct.symm, rfl⟩
  · simp only [Oracle.verify, verify, bind_eq_ok, require_eq_ok, hlength, false_and, exists_false]

end Verify

/-- The bytes that are hashed to the task of a certificate. -/
def taskMessage (bytes : Bytes) : Bytes :=
  message "task" [fieldBytes ((matrices bytes).take CELLS),
    fieldBytes (((matrices bytes).drop CELLS).take CELLS)]

theorem taskMessage_certificate (ha : Reduced a CELLS)
    (hb : Reduced b CELLS) (hproduct : Reduced product CELLS) :
    taskMessage (certificate a b product trace) = message "task" [fieldBytes a, fieldBytes b] := by
  rw [taskMessage, matrices_certificate ha hb hproduct, List.take_left' ha.length,
    List.drop_left' ha.length, List.take_left' hb.length]

theorem hash_of_taskId (h : taskId sha256 a b = .ok task) :
    hash sha256 "task" [fieldBytes a, fieldBytes b] = task := by
  simp only [taskId, bind_eq_ok, pure_eq_ok] at h
  obtain ⟨_, -, _, -, h⟩ := h
  exact h

/-- The task fixes the matrices, and they fix the certificate. -/
theorem certificate_unique (hclean : Set.InjOn sha256
      {message "task" [fieldBytes a, fieldBytes b], message "task" [fieldBytes a', fieldBytes b']})
    (htask : taskId sha256 a b = .ok task) (htask' : taskId sha256 a' b' = .ok task)
    (hresult : evaluate sha256 challenge a b = .ok (product, trace))
    (hresult' : evaluate sha256 challenge a' b' = .ok (product', trace')) :
    certificate a' b' product' trace' = certificate a b product trace := by
  obtain ⟨ha, hb, -⟩ := reduced_of_evaluate hresult
  obtain ⟨ha', hb', -⟩ := reduced_of_evaluate hresult'
  have heq := (hash_of_taskId htask').trans (hash_of_taskId htask).symm
  have hparts := (hash_inj hclean (framed_task ha' hb') (framed_task ha hb) (Or.inr rfl)
    (Or.inl rfl) heq).2
  obtain ⟨hfa, hfb⟩ : fieldBytes a' = fieldBytes a ∧ fieldBytes b' = fieldBytes b := by
    simpa using hparts
  obtain rfl := fieldBytes_inj ha' ha hfa
  obtain rfl := fieldBytes_inj hb' hb hfb
  obtain ⟨rfl, rfl⟩ := Prod.mk.inj (Except.ok.inj (hresult'.symm.trans hresult))
  rfl

/-- Certificates are sound, complete and not malleable, and the oracle agrees. -/
theorem certificates_exact (sha256 : Bytes → Hash) (challenge task : Hash) (bytes : Bytes) :
    (∀ target, (∃ work, verify sha256 challenge task target bytes = .ok work) ↔
      target ≠ Hash.zero ∧ ∃ a b product trace, Reduced a CELLS ∧ Reduced b CELLS ∧
        taskId sha256 a b = .ok task ∧ prove sha256 challenge a b = .ok bytes ∧
        evaluate sha256 challenge a b = .ok (product, trace) ∧
        hash sha256 "ticket" [challenge.bytes, trace.bytes] ≤ target) ∧
    (∀ other target target' work work', Set.InjOn sha256 {taskMessage bytes, taskMessage other} →
      verify sha256 challenge task target bytes = .ok work →
      verify sha256 challenge task target' other = .ok work' → other = bytes) ∧
    ∀ target r, Oracle.verify sha256 challenge task target.bytes bytes = .ok r ↔
      ∃ work, verify sha256 challenge task target bytes = .ok work ∧
        r = (work.ticket, work.product) := by
  refine ⟨fun target => ?_, fun other target target' work work' hclean h h' => ?_, fun target r =>
    oracle_verify_eq_ok⟩
  · simp only [verify_eq_ok, prove, bind_eq_ok, pure_eq_ok]
    constructor
    · rintro ⟨_, htarget, a, b, product, trace, htask, hresult, hbytes, hticket, -⟩
      obtain ⟨ha, hb, -⟩ := reduced_of_evaluate hresult
      exact ⟨htarget, a, b, product, trace, ha, hb, htask, ⟨_, hresult, hbytes.symm⟩,
        hresult, hticket⟩
    · rintro ⟨htarget, a, b, product, trace, -, -, htask, ⟨r, hr, hbytes⟩, hresult, hticket⟩
      cases hr.symm.trans hresult
      exact ⟨_, htarget, a, b, product, trace, htask, hresult, hbytes.symm, hticket, rfl⟩
  · obtain ⟨-, a, b, product, trace, htask, hresult, hbytes, -, -⟩ := verify_eq_ok.mp h
    obtain ⟨-, a', b', product', trace', htask', hresult', rfl, -, -⟩ := verify_eq_ok.mp h'
    obtain ⟨ha, hb, hproduct⟩ := reduced_of_evaluate hresult
    obtain ⟨ha', hb', hproduct'⟩ := reduced_of_evaluate hresult'
    rw [hbytes, taskMessage_certificate ha hb hproduct, taskMessage_certificate ha' hb' hproduct']
      at hclean
    rw [hbytes]
    exact certificate_unique hclean htask htask' hresult hresult'

/-- The certificate for the square of the matrix of ones. -/
theorem ones_certified : ∃ bytes work,
    verify sampleHash (Hash.ofByte 1) (Hash.ofByte 1) (Hash.ofByte 255) bytes = .ok work ∧
    Oracle.verify sampleHash (Hash.ofByte 1) (Hash.ofByte 1) (Hash.ofByte 255).bytes bytes =
      .ok (work.ticket, work.product) ∧
    ∀ other work', taskMessage other = taskMessage bytes →
      verify sampleHash (Hash.ofByte 1) (Hash.ofByte 1) (Hash.ofByte 255) other = .ok work' →
      other = bytes := by
  have hones := reduced_replicate CELLS (show 1 < Q by decide)
  have hresult := evaluate_eq hones hones (expand_sampleHash 0) (expand_sampleHash 1)
    (expand_sampleHash 2) (expand_sampleHash 3)
  generalize oracleResult _ _ _ _ _ _ _ _ = result at hresult
  have hprove : prove sampleHash (Hash.ofByte 1) (List.replicate CELLS 1) (List.replicate CELLS 1) =
      .ok (certificate (List.replicate CELLS 1) (List.replicate CELLS 1) result.1 result.2) := by
    rw [prove, hresult, bind_of_ok rfl]
    rfl
  have htask : taskId sampleHash (List.replicate CELLS 1) (List.replicate CELLS 1) =
      .ok (Hash.ofByte 1) := by
    rw [taskId, hones.validate, bind_of_ok rfl, bind_of_ok rfl]
    rfl
  obtain ⟨haccept, hunique, horacle⟩ := certificates_exact sampleHash (Hash.ofByte 1)
    (Hash.ofByte 1)
    (certificate (List.replicate CELLS 1) (List.replicate CELLS 1) result.1 result.2)
  obtain ⟨work, hwork⟩ := (haccept (Hash.ofByte 255)).mpr ⟨by decide, _, _, result.1, result.2,
    hones, hones, htask, hprove, hresult, show Hash.ofByte 1 ≤ Hash.ofByte 255 by decide⟩
  refine ⟨_, work, hwork, (horacle ..).mpr ⟨work, hwork, rfl⟩, fun other work' hmessage hother =>
    ?_⟩
  refine hunique other _ _ work work' ?_ hwork hother
  rw [hmessage, Set.pair_eq_singleton]
  exact Set.injOn_singleton ..

end Trillionnium.Pon.Work
