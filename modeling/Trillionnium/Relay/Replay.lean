import Trillionnium.Lib.Calls
import Trillionnium.Relay.Auth

/-!
# No signed message is accepted twice

The verifier tells a replay by the chain, the task, the session, the sender and the nonce of the
envelope. The current text covers all of them, and the legacy text all but the chain: a
legacy-signed envelope is one message for every chain that the relay writes into it.
-/

namespace Trillionnium.Relay

open Lib Lib.Text Pon

/-! ## What a signed text covers -/

namespace RelayAuthEnvelope

/-- The fields of the legacy text. -/
structure AgreeOffChain (a b : RelayAuthEnvelope) : Prop where
  version : a.version = b.version
  msgType : a.msgType = b.msgType
  taskId : a.taskId = b.taskId
  sessionId : a.sessionId = b.sessionId
  seq : a.seq = b.seq
  timestampMs : a.timestampMs = b.timestampMs
  from_ : a.from_ = b.from_
  to_ : a.to_ = b.to_
  nonce : a.nonce = b.nonce
  payloadHash : a.payloadHash = b.payloadHash

/-- What the verifier makes sure of in an envelope that it accepts. -/
structure Shaped (env : RelayAuthEnvelope) : Prop where
  version : env.version = specVersion ∨ env.version = legacySpecVersion
  fields : ∀ f ∈ [env.taskId, env.sessionId, env.msgType, env.from_, env.to_, env.nonce,
    env.payloadHash], '|' ∉ f.toList

variable {a b : RelayAuthEnvelope}

theorem Shaped.version_free (h : a.Shaped) : '|' ∉ a.version.toList := by
  rcases h.version with hversion | hversion
  all_goals
    rw [hversion]
    decide

theorem number_free (n : Nat) : '|' ∉ (toString n).toList := Delimited.not_mem_decimal (by decide)

theorem eq_of_decimal {x y : BitVec w} (h : toString x.toNat = toString y.toNat) : x = y :=
  BitVec.eq_of_toNat_eq (Delimited.decimal_inj h)

theorem agree_of_legacy (ha : a.Shaped) (hb : b.Shaped)
    (h : a.signingMessageLegacyV0 = b.signingMessageLegacyV0) : AgreeOffChain a b := by
  have hfree {env : RelayAuthEnvelope} (henv : env.Shaped) : ∀ f ∈ [env.version, env.taskId,
      env.sessionId, toString env.seq.toNat, toString env.timestampMs.toNat, env.msgType, env.from_,
      env.to_, env.nonce, env.payloadHash], '|' ∉ f.toList := by
    have hfields := henv.fields
    simp only [List.forall_mem_cons] at hfields ⊢
    obtain ⟨htask, hsession, htype, hfrom, hto, hnonce, hhash, hnil⟩ := hfields
    exact ⟨henv.version_free, htask, hsession, number_free _, number_free _, htype, hfrom,
      hto, hnonce, hhash, hnil⟩
  have hlists := Delimited.join_inj (hfree ha) (hfree hb) (by simp) (by simp) h
  simp only [List.cons.injEq, and_true] at hlists
  obtain ⟨hversion, htask, hsession, hseq, htime, htype, hfrom, hto, hnonce, hhash⟩ := hlists
  exact ⟨hversion, htype, htask, hsession, eq_of_decimal hseq, eq_of_decimal htime, hfrom,
    hto, hnonce, hhash⟩

/-- The chain stands second, and the fields after it are counted from the end. -/
theorem agree_of_current (ha : a.Shaped) (hb : b.Shaped) (h : a.signingMessage = b.signingMessage) :
    a.chainId = b.chainId ∧ AgreeOffChain a b := by
  have hfree {env : RelayAuthEnvelope} (henv : env.Shaped) :
      ∀ f ∈ [env.msgType, env.version, env.taskId,
      env.sessionId, toString env.seq.toNat, toString env.timestampMs.toNat, env.from_, env.to_,
      env.nonce, env.payloadHash], '|' ∉ f.toList := by
    have hfields := henv.fields
    simp only [List.forall_mem_cons] at hfields ⊢
    obtain ⟨htask, hsession, htype, hfrom, hto, hnonce, hhash, hnil⟩ := hfields
    exact ⟨htype, henv.version_free, htask, hsession, number_free _, number_free _, hfrom,
      hto, hnonce, hhash, hnil⟩
  have htail := Delimited.tail_of_join_cons (by simp) (by simp) h
  obtain ⟨hchain, hlists⟩ := Delimited.join_cons_inj (hfree ha) (hfree hb) (by simp) rfl htail
  simp only [List.cons.injEq, and_true] at hlists
  obtain ⟨htype, hversion, htask, hsession, hseq, htime, hfrom, hto, hnonce, hhash⟩ := hlists
  exact ⟨hchain, hversion, htype, htask, hsession, eq_of_decimal hseq, eq_of_decimal htime,
    hfrom, hto, hnonce, hhash⟩

/-- The domain of the current text is no version. -/
theorem current_ne_legacy (hb : b.version = legacySpecVersion) :
    a.signingMessage ≠ b.signingMessageLegacyV0 := by
  intro h
  have hcurrent : a.signingMessage.toList.head? = some 'T' := by
    rw [signingMessage, Delimited.toList_join_cons (by simp)]
    rfl
  have hlegacy : b.signingMessageLegacyV0.toList.head? = some 'p' := by
    rw [signingMessageLegacyV0, Delimited.toList_join_cons (by simp), hb]
    rfl
  rw [h, hlegacy] at hcurrent
  exact absurd hcurrent (by decide)

theorem nonceKey_eq (hchain : a.chainId = b.chainId) (h : AgreeOffChain a b) :
    a.nonceKey = b.nonceKey := by
  rw [nonceKey, nonceKey, seqKey, seqKey, hchain, h.taskId, h.sessionId, h.from_, h.nonce]

end RelayAuthEnvelope

open RelayAuthEnvelope

/-- Which signatures were made: sender, text and signature. -/
abbrev Produced := String → String → String → Prop

section
variable {produced : Produced} {a b env : RelayAuthEnvelope} {m : String}

/-- The envelope carries a legacy signature on the text. -/
def LegacyOn (produced : Produced) (env : RelayAuthEnvelope) (m : String) : Prop :=
  env.version = legacySpecVersion ∧ m = env.signingMessageLegacyV0 ∧ produced env.from_ m env.sig

/-- The signature of the envelope was made by its sender on the text, and the text is one of the
envelope. -/
def RestsOn (produced : Produced) (env : RelayAuthEnvelope) (m : String) : Prop :=
  (m = env.signingMessage ∧ produced env.from_ m env.sig) ∨ LegacyOn produced env m

/-- A check that accepts only what was signed. -/
def Sound (produced : Produced) (check : RelayAuthEnvelope → Bool) : Prop :=
  ∀ env, check env = true → ∃ m, RestsOn produced env m

/-- No legacy-signed text comes with two chains. -/
def OneChain (produced : Produced) (envs : List RelayAuthEnvelope) : Prop :=
  ∀ a ∈ envs, ∀ b ∈ envs, ∀ m, LegacyOn produced a m → LegacyOn produced b m → a.chainId = b.chainId

theorem agree_of_restsOn (ha : a.Shaped) (hb : b.Shaped) (hma : RestsOn produced a m)
    (hmb : RestsOn produced b m)
    (hchain : LegacyOn produced a m → LegacyOn produced b m → a.chainId = b.chainId) :
    a.chainId = b.chainId ∧ AgreeOffChain a b := by
  rcases hma with ⟨rfl, -⟩ | hla
  · rcases hmb with ⟨hm, -⟩ | ⟨hversion, hm, -⟩
    · exact agree_of_current ha hb hm
    · exact absurd hm (current_ne_legacy hversion)
  · rcases hmb with ⟨rfl, -⟩ | hlb
    · exact absurd hla.2.1 (current_ne_legacy hla.1)
    · exact ⟨hchain hla hlb, agree_of_legacy ha hb (hla.2.1.symm.trans hlb.2.1)⟩

end

/-! ## One call -/

section
variable {sha256 : Bytes → Hash} {v v' : RelayAuthVerifier} {env : RelayAuthEnvelope} {nowMs : U128}
  {check : RelayAuthEnvelope → Bool}

structure Accepts (v : RelayAuthVerifier) (env : RelayAuthEnvelope)
    (check : RelayAuthEnvelope → Bool) (v' : RelayAuthVerifier) : Prop where
  shaped : env.Shaped
  legacy : env.version = legacySpecVersion → v.allowLegacyV0 = true
  signed : check env = true
  follows : ∀ last, v.lastSeq.get env.seqKey = some last → env.seq.toNat = last.toNat + 1
  unseen : v.seenNonce.get env.nonceKey = none
  after : v' = { v with
    lastSeq := v.lastSeq.insert env.seqKey env.seq
    seenNonce := v.seenNonce.insert env.nonceKey () }

theorem verifyEnvelopeFields_eq_ok (h : v.verifyEnvelopeFields sha256 env check = .ok ()) :
    env.Shaped ∧ (env.version = legacySpecVersion → v.allowLegacyV0 = true) ∧ check env = true := by
  simp only [RelayAuthVerifier.verifyEnvelopeFields, bind_eq_ok, require_eq_ok, decide_eq_true_eq,
    List.forM_eq_forM, forM_eq_ok, RelayAuthVerifier.checkField] at h
  obtain ⟨-, hversion, -, -, -, -, -, hfields, -, -, -, -, hsigned⟩ := h
  refine ⟨⟨hversion.imp_right And.right, fun f hf => ?_⟩, fun hlegacy => ?_, hsigned⟩
  · simp only [List.forall_mem_cons] at hfields
    obtain ⟨⟨-, -, htask⟩, ⟨-, -, hsession⟩, ⟨-, -, htype⟩, ⟨-, -, hfrom⟩, ⟨-, -, hto⟩,
      ⟨-, -, hnonce⟩, ⟨-, -, hhash⟩, -⟩ := hfields
    simp only [List.mem_cons, List.not_mem_nil, or_false] at hf
    rcases hf with rfl | rfl | rfl | rfl | rfl | rfl | rfl <;> assumption
  · rcases hversion with hcurrent | hallowed
    · rw [hlegacy] at hcurrent
      exact absurd hcurrent (by decide)
    · exact hallowed.1

theorem checkSeq_eq_ok (h : v.checkSeq env = .ok ()) :
    ∀ last, v.lastSeq.get env.seqKey = some last → env.seq.toNat = last.toNat + 1 := by
  intro last hlast
  simp only [RelayAuthVerifier.checkSeq, hlast, bind_eq_ok, require_eq_ok] at h
  obtain ⟨-, hlt, hnext⟩ := h
  have hvalue := congrArg BitVec.toNat hnext
  rw [toNat_saturatingAdd, show (1 : U64).toNat = 1 from rfl] at hvalue
  have hlt : last.toNat < env.seq.toNat := hlt
  have hbound := env.seq.isLt
  omega

theorem verify_safe : Safe (RelayAuthVerifier.verify sha256 env nowMs check) v
    (fun _ v' => Accepts v env check v') := by
  refine SafeUnless.get_bind (SafeUnless.lift_bind fun _ hfields => SafeUnless.lift_bind fun _ _ =>
    SafeUnless.lift_bind fun _ hseq => SafeUnless.lift_bind fun _ hunseen => ?_)
  refine SafeUnless.modify_bind (ReturnsUnless.of_modify ?_)
  obtain ⟨hshaped, hlegacy, hsigned⟩ := verifyEnvelopeFields_eq_ok hfields
  exact ⟨hshaped, hlegacy, hsigned, checkSeq_eq_ok hseq, require_eq_ok.mp hunseen, rfl⟩

end

/-! ## Runs -/

structure VerifyCall where
  env : RelayAuthEnvelope
  nowMs : U128
  verifySignature : RelayAuthEnvelope → Bool

abbrev VerifyTurn := Turn RelayAuthVerifier (Answer VerifyCall RelayAuthError Unit)

/-- The runs of a verifier; nothing crashes it. -/
abbrev VerifyRuns (sha256 : Bytes → Hash) :
    RelayAuthVerifier → List VerifyTurn → RelayAuthVerifier → Prop :=
  Runs (fun c : VerifyCall => RelayAuthVerifier.verify sha256 c.env c.nowMs c.verifySignature)
    (fun _ => False)

def acceptedBy (t : VerifyTurn) : Option RelayAuthEnvelope :=
  match t.label.reply with
  | .ok _ => some t.label.call.env
  | .error _ => none

def accepted (ts : List VerifyTurn) : List RelayAuthEnvelope := ts.filterMap acceptedBy

def seqs (key : SeqKey) (envs : List RelayAuthEnvelope) : List Nat :=
  (envs.filter (·.seqKey = key)).map (·.seq.toNat)

section
variable {sha256 : Bytes → Hash} {produced : Produced} {allow : Bool} {v v' : RelayAuthVerifier}
  {ts us : List VerifyTurn} {skew : U128} {acc : List RelayAuthEnvelope} {env : RelayAuthEnvelope}

/-- What the verifier remembers of the envelopes that it accepted. -/
structure Remembers (allow : Bool) (acc : List RelayAuthEnvelope) (v : RelayAuthVerifier) :
    Prop where
  allowed : v.allowLegacyV0 = allow
  shaped : ∀ a ∈ acc, a.Shaped ∧ (a.version = legacySpecVersion → allow = true)
  seen : ∀ a ∈ acc, v.seenNonce.get a.nonceKey ≠ none
  nonces : acc.Pairwise fun a b => a.nonceKey ≠ b.nonceKey
  unused : ∀ key, v.lastSeq.get key = none → seqs key acc = []
  consecutive : ∀ key last, v.lastSeq.get key = some last →
    ∃ first n, seqs key acc = List.range' first n ∧ last.toNat + 1 = first + n

theorem seqs_snoc :
    seqs key (acc ++ [env]) = seqs key acc ++ if env.seqKey = key then [env.seq.toNat] else [] := by
  unfold seqs
  rw [List.filter_append, List.map_append]
  congr 1
  by_cases hkey : env.seqKey = key
  · simp [hkey]
  · simp [hkey]

theorem Remembers.snoc {check : RelayAuthEnvelope → Bool} (h : Remembers allow acc v)
    (haccepts : Accepts v env check v') : Remembers allow (acc ++ [env]) v' := by
  obtain ⟨hshaped, hlegacy, -, hfollows, hunseen, rfl⟩ := haccepts
  refine ⟨h.allowed, ?_, ?_, ?_, ?_, ?_⟩
  · refine List.forall_mem_append.mpr ⟨h.shaped,
      List.forall_mem_singleton.mpr ⟨hshaped, fun hv => ?_⟩⟩
    rw [← h.allowed]
    exact hlegacy hv
  · refine List.forall_mem_append.mpr ⟨fun a ha => ?_, List.forall_mem_singleton.mpr ?_⟩
    · rw [OrdMap.get_insert]
      split
      · simp
      · exact h.seen a ha
    · simp
  · refine List.pairwise_append.mpr ⟨h.nonces, List.pairwise_singleton _ _, fun a ha b hb heq => ?_⟩
    obtain rfl := List.mem_singleton.mp hb
    exact h.seen a ha (heq ▸ hunseen)
  · intro key hnone
    obtain ⟨hne, hbefore⟩ : env.seqKey ≠ key ∧ v.lastSeq.get key = none := by
      rw [OrdMap.get_insert] at hnone
      split at hnone
      · cases hnone
      · next hne => exact ⟨hne, hnone⟩
    rw [seqs_snoc, if_neg hne, List.append_nil]
    exact h.unused key hbefore
  · intro key last hlast
    rw [seqs_snoc]
    rcases OrdMap.get_insert_cases hlast with ⟨rfl, rfl⟩ | ⟨hne, hbefore⟩
    · rw [if_pos rfl]
      cases hget : v.lastSeq.get env.seqKey with
      | none => exact ⟨env.seq.toNat, 1, by rw [h.unused _ hget]; rfl, rfl⟩
      | some before =>
        obtain ⟨first, n, hseqs, hbefore⟩ := h.consecutive _ before hget
        have hnext := hfollows before hget
        refine ⟨first, n + 1, ?_, by omega⟩
        rw [hseqs, List.range'_1_concat]
        congr 2
        omega
    · rw [if_neg (Ne.symm hne), List.append_nil]
      exact h.consecutive key last hbefore

theorem remembers_of_runs (hstart : v = .new skew ∨ v = .strict skew)
    (h : VerifyRuns sha256 v ts v') :
    Remembers v.allowLegacyV0 (accepted ts) v' := by
  refine Runs.induction (P := fun ts v' => Remembers v.allowLegacyV0 (accepted ts) v')
    (fun c t => verify_safe) ?_ ?_ ?_ h
  · rcases hstart with rfl | rfl
    all_goals
      exact ⟨rfl, by simp [accepted], by simp [accepted], .nil, by simp [accepted, seqs],
        by simp [RelayAuthVerifier.new, RelayAuthVerifier.strict]⟩
  · intro ts t c a t' ih haccepts
    rw [accepted, List.filterMap_append]
    exact ih.snoc haccepts
  · intro ts t c e ih
    rw [accepted, List.filterMap_append]
    simpa [accepted, acceptedBy, List.filterMap_cons] using ih

/-- A rejected call leaves the verifier as it was. -/
theorem unchanged_of_runs (h : VerifyRuns sha256 v ts v') :
    ∀ t ∈ ts, ∀ e, t.label.reply = .error e → t.after = t.before := by
  refine Runs.induction (P := fun ts _ =>
    ∀ t ∈ ts, ∀ e, t.label.reply = .error e → t.after = t.before)
    (fun c t => verify_safe) (by simp) ?_ ?_ h
  · intro ts t c a t' ih _
    refine List.forall_mem_append.mpr ⟨ih, List.forall_mem_singleton.mpr fun e he => ?_⟩
    cases he
  · intro ts t c e ih
    exact List.forall_mem_append.mpr ⟨ih, List.forall_mem_singleton.mpr fun _ _ => rfl⟩

/-- What was accepted passed the signature check of its call. -/
theorem signed_of_runs (h : VerifyRuns sha256 v ts v')
    (hsound : ∀ t ∈ ts, Sound produced t.label.call.verifySignature) :
    ∀ a ∈ accepted ts, ∃ m, RestsOn produced a m := by
  refine Runs.induction (P := fun ts _ => (∀ t ∈ ts, Sound produced t.label.call.verifySignature) →
    ∀ a ∈ accepted ts, ∃ m, RestsOn produced a m) (fun c t => verify_safe) ?_ ?_ ?_ h hsound
  · simp [accepted]
  · intro ts t c a t' ih haccepts hsound
    obtain ⟨hbefore, hlast⟩ := List.forall_mem_append.mp hsound
    rw [accepted, List.filterMap_append]
    refine List.forall_mem_append.mpr ⟨ih hbefore, List.forall_mem_singleton.mpr ?_⟩
    exact List.forall_mem_singleton.mp hlast c.env haccepts.signed
  · intro ts t c e ih hsound
    rw [accepted, List.filterMap_append]
    simpa [accepted, acceptedBy, List.filterMap_cons] using ih (List.forall_mem_append.mp hsound).1

theorem agree_of_remembers (h : Remembers allow acc v) (h' : Remembers allow' acc' w)
    (hchain : allow = true → allow' = true → LegacyOn produced a m → LegacyOn produced b m →
      a.chainId = b.chainId) (ha : a ∈ acc) (hb : b ∈ acc') (hma : RestsOn produced a m)
    (hmb : RestsOn produced b m) : a.chainId = b.chainId ∧ AgreeOffChain a b := by
  obtain ⟨hshaped, hallow⟩ := h.shaped a ha
  obtain ⟨hshaped', hallow'⟩ := h'.shaped b hb
  exact agree_of_restsOn hshaped hshaped' hma hmb fun hla hlb =>
    hchain (hallow hla.1) (hallow' hlb.1) hla hlb

/-- A verifier that is strict, or accepts every legacy-signed text for one chain only, accepts no
signed text twice, takes from it every field that its replay keys are made of, and accepts the
sequence numbers of a session one after another, each with a new nonce. -/
theorem signed_messages_accepted_once (hstart : v = .new skew ∨ v = .strict skew)
    (h : VerifyRuns sha256 v ts v') (hsound : ∀ t ∈ ts, Sound produced t.label.call.verifySignature)
    (hchain : v.allowLegacyV0 = true → OneChain produced (accepted ts)) :
    (∀ a ∈ accepted ts, ∃ m, RestsOn produced a m) ∧
    ((accepted ts).Pairwise fun a b => ∀ m, RestsOn produced a m → ¬ RestsOn produced b m) ∧
    (∀ skew' w us w', (w = .new skew' ∨ w = .strict skew') → VerifyRuns sha256 w us w' →
      (v.allowLegacyV0 = true → w.allowLegacyV0 = true →
        OneChain produced (accepted ts ++ accepted us)) →
      ∀ a ∈ accepted ts, ∀ b ∈ accepted us, ∀ m, RestsOn produced a m → RestsOn produced b m →
        a.chainId = b.chainId ∧ AgreeOffChain a b) ∧
    (∀ key, ∃ first n, seqs key (accepted ts) = List.range' first n) ∧
    ((accepted ts).Pairwise fun a b => a.seqKey = b.seqKey → a.nonce ≠ b.nonce) ∧
    ∀ t ∈ ts, ∀ e, t.label.reply = .error e → t.after = t.before := by
  have hremembers := remembers_of_runs hstart h
  refine ⟨signed_of_runs h hsound, ?_, ?_, ?_, ?_, unchanged_of_runs h⟩
  · refine hremembers.nonces.imp_of_mem fun {a b} ha hb hne m hma hmb => hne ?_
    obtain ⟨hchain, hagree⟩ := agree_of_remembers hremembers hremembers
      (fun hallow _ => hchain hallow a ha b hb m) ha hb hma hmb
    exact nonceKey_eq hchain hagree
  · intro skew' w us w' hstart' h' hchain a ha b hb m
    refine agree_of_remembers hremembers (remembers_of_runs hstart' h') (fun hallow hallow' => ?_)
      ha hb
    exact hchain hallow hallow' a (List.mem_append_left _ ha) b (List.mem_append_right _ hb) m
  · intro key
    cases hget : v'.lastSeq.get key with
    | none => exact ⟨0, 0, hremembers.unused key hget⟩
    | some last =>
      obtain ⟨first, n, hseqs, -⟩ := hremembers.consecutive key last hget
      exact ⟨first, n, hseqs⟩
  · refine hremembers.nonces.imp fun {a b} hne hkey hnonce => hne ?_
    rw [nonceKey, nonceKey, hkey, hnonce]

end

/-! ## Two runs -/

/-- Whoever knows the key signs. -/
def testProduced (sha256 : Bytes → Hash) (keyMaterial : String) : Produced := fun _ message sig =>
  testSig sha256 message keyMaterial = sig

theorem sound_verifyTestSigCompat :
    Sound (testProduced sha256 keyMaterial) fun env =>
      env.verifyTestSigCompat sha256 keyMaterial := by
  intro env h
  simp only [verifyTestSigCompat, Bool.or_eq_true, Bool.and_eq_true, decide_eq_true_eq] at h
  rcases h with h | ⟨hversion, h⟩
  · exact ⟨_, .inl ⟨rfl, h⟩⟩
  · exact ⟨_, .inr ⟨hversion, rfl, h⟩⟩

/-- A remainder that stands in for SHA-256. -/
def sampleSha256 (bs : Bytes) : Hash :=
  ⟨Bytes.ofNat 32 (Bytes.toNat bs % (2 ^ 255 - 19)), Bytes.length_ofNat ..⟩

/-- An acknowledgement, not yet signed. -/
def draft (version chainId nonce : String) (seq : U64) : RelayAuthEnvelope :=
  ⟨version, chainId, "t", "s", seq, 5, "ACK", "a", "b", nonce, [1], payloadHashHex sampleSha256 [1],
    ""⟩

def legacyEnvelope (chainId : String) : RelayAuthEnvelope :=
  let env := draft legacySpecVersion chainId "n" 1
  { env with sig := env.signForTestLegacyV0 sampleSha256 "k" }

def currentEnvelope (chainId nonce : String) (seq : U64) : RelayAuthEnvelope :=
  let env := draft specVersion chainId nonce seq
  { env with sig := env.signForTest sampleSha256 "k" }

def sampleCall (env : RelayAuthEnvelope) : VerifyCall :=
  ⟨env, 5, (·.verifyTestSigCompat sampleSha256 "k")⟩

def sampleTurns (envs : List RelayAuthEnvelope) : List VerifyTurn :=
  (attempt (fun c : VerifyCall => RelayAuthVerifier.verify sampleSha256 c.env c.nowMs
    c.verifySignature) (.new 0) (envs.map sampleCall)).1

theorem runs_sampleTurns (envs : List RelayAuthEnvelope) :
    ∃ v', VerifyRuns sampleSha256 (.new 0) (sampleTurns envs) v' :=
  ⟨_, Runs.nil.attempt _ fun _ _ _ _ => not_false⟩

theorem calls_sampleTurns (envs : List RelayAuthEnvelope) :
    (sampleTurns envs).map (·.label.call) = envs.map sampleCall := calls_attempt

theorem sound_sampleTurns (envs : List RelayAuthEnvelope) :
    ∀ t ∈ sampleTurns envs, Sound (testProduced sampleSha256 "k") t.label.call.verifySignature := by
  intro t ht
  have hcall := List.mem_map_of_mem (f := fun t : VerifyTurn => t.label.call) ht
  rw [calls_sampleTurns] at hcall
  obtain ⟨env, -, henv⟩ := List.mem_map.mp hcall
  rw [← henv]
  exact sound_verifyTestSigCompat

/-- A replayed envelope is refused between two that follow each other. -/
theorem sample_messages_accepted_once :
    let ts := sampleTurns [legacyEnvelope "x", legacyEnvelope "x", currentEnvelope "x" "o" 2]
    accepted ts = [legacyEnvelope "x", currentEnvelope "x" "o" 2] ∧
    (accepted ts).Pairwise fun a b => ∀ m, RestsOn (testProduced sampleSha256 "k") a m →
      ¬ RestsOn (testProduced sampleSha256 "k") b m := by
  obtain ⟨v', hruns⟩ := runs_sampleTurns
    [legacyEnvelope "x", legacyEnvelope "x", currentEnvelope "x" "o" 2]
  have haccepted : accepted (sampleTurns [legacyEnvelope "x", legacyEnvelope "x",
      currentEnvelope "x" "o" 2]) = [legacyEnvelope "x", currentEnvelope "x" "o" 2] := by
        decide +kernel
  have hchain : OneChain (testProduced sampleSha256 "k") (accepted (sampleTurns
      [legacyEnvelope "x", legacyEnvelope "x", currentEnvelope "x" "o" 2])) := by
    rw [haccepted]
    have hone : ∀ a ∈ [legacyEnvelope "x", currentEnvelope "x" "o" 2], a.chainId = "x" := by
      simp [legacyEnvelope, currentEnvelope, draft]
    intro a ha b hb m _ _
    rw [hone a ha, hone b hb]
  refine ⟨haccepted, ?_⟩
  exact (signed_messages_accepted_once (.inl rfl) hruns (sound_sampleTurns _) fun _ => hchain).2.1

theorem legacyOn_legacyEnvelope (chainId : String) : LegacyOn (testProduced sampleSha256 "k")
    (legacyEnvelope chainId) (draft legacySpecVersion "x" "n" 1).signingMessageLegacyV0 := by
  refine ⟨rfl, ?_, ?_⟩
  all_goals
    simp only [legacyEnvelope, draft, signingMessageLegacyV0, signForTestLegacyV0, testProduced]

/-- One legacy signature is accepted for two chains. -/
theorem legacy_message_accepted_on_two_chains :
    let ts := sampleTurns [legacyEnvelope "x", legacyEnvelope "y"]
    (∃ v', VerifyRuns sampleSha256 (.new 0) ts v') ∧
    (∀ t ∈ ts, Sound (testProduced sampleSha256 "k") t.label.call.verifySignature) ∧
    accepted ts = [legacyEnvelope "x", legacyEnvelope "y"] ∧
    (legacyEnvelope "x").chainId ≠ (legacyEnvelope "y").chainId ∧
    ∃ m, RestsOn (testProduced sampleSha256 "k") (legacyEnvelope "x") m ∧
      RestsOn (testProduced sampleSha256 "k") (legacyEnvelope "y") m := by
  refine ⟨runs_sampleTurns _, sound_sampleTurns _, by decide +kernel, by decide, ?_⟩
  exact ⟨_, .inr (legacyOn_legacyEnvelope "x"), .inr (legacyOn_legacyEnvelope "y")⟩

end Trillionnium.Relay
