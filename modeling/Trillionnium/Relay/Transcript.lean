import Trillionnium.Lib.Merkle
import Trillionnium.Relay.Auth

/-!
# Transcripts

The Merkle tree over a segment of a session's envelopes, its proofs and their verifier.

A proof that the tree gives out is accepted, unless the range ends at the largest sequence number,
where the loop reports that number as missing. Since leaves and inner nodes are hashed alike, an
accepted proof need not start at an envelope, unless it is as long as the tree is deep: over two
envelopes or more the root itself is accepted without a path.
-/

namespace Trillionnium.Relay

open Lib Pon

inductive MerkleDirection where
  | left
  | right

structure TranscriptProof where
  leaf : Hash
  path : List Hash
  directions : List MerkleDirection

inductive TranscriptError where
  | emptySegment
  | emptyTargets
  | invalidRange (startSeq endSeq : U64)
  | missingSequence (expectedSeq : U64)
  | orderMismatch (expectedSeq gotSeq : U64)
  | targetOutOfRange (targetSeq startSeq endSeq : U64)

abbrev TranscriptOutcome (α : Type) := Except TranscriptError α

def RelayAuthEnvelope.transcriptMessage (env : RelayAuthEnvelope) : Bytes :=
  Bytes.ofString signingDomainV1 ++
    [env.chainId, env.msgType, env.version, env.taskId, env.sessionId, toString env.seq.toNat,
      toString env.timestampMs.toNat, env.from_, env.to_, env.nonce, env.payloadHash,
      env.sig].flatMap fun field => Bytes.ofString "|" ++ Bytes.ofString field

structure TranscriptMerkleTree where
  levels : List (List Hash)

section
variable (sha256 : Bytes → Hash)

/-! ## Collecting -/

def relayAuthEnvelopeHash (env : RelayAuthEnvelope) : Hash := sha256 env.transcriptMessage

/-- The loop over the envelopes: the hashes so far and the sequence number that is due. It skips
what is before the range and stops at what is beyond it. -/
def collectFrom (startSeq endSeq : U64) :
    List RelayAuthEnvelope → U64 → List Hash → TranscriptOutcome (List Hash × U64)
  | [], expectedSeq, hashes => .ok (hashes, expectedSeq)
  | env :: rest, expectedSeq, hashes =>
    if env.seq < startSeq then collectFrom startSeq endSeq rest expectedSeq hashes
    else if endSeq < env.seq then .ok (hashes, expectedSeq)
    else if env.seq ≠ expectedSeq then .error (.orderMismatch expectedSeq env.seq)
    else collectFrom startSeq endSeq rest (saturatingAdd expectedSeq 1)
      (hashes ++ [relayAuthEnvelopeHash sha256 env])

def collectSegmentHashes (envelopes : List RelayAuthEnvelope) (startSeq endSeq : U64) :
    TranscriptOutcome (List Hash) := do
  require (startSeq ≤ endSeq) (.invalidRange startSeq endSeq)
  let (hashes, expectedSeq) ← collectFrom sha256 startSeq endSeq envelopes startSeq []
  require (hashes ≠ []) .emptySegment
  require (endSeq < expectedSeq) (.missingSequence expectedSeq)
  return hashes

/-! ## Trees -/

def hashPair (left right : Hash) : Hash := sha256 (left.bytes ++ right.bytes)

/-- The levels over a list of leaves, in at most so many rounds. -/
def levelsFrom : Nat → List Hash → List (List Hash)
  | 0, level => [level]
  | rounds + 1, level =>
    if 1 < level.length then level :: levelsFrom rounds (Merkle.levelUp (hashPair sha256) level)
    else [level]

def buildMerkleLevels (leaves : List Hash) : List (List Hash) :=
  if leaves = [] then [[.zero]] else levelsFrom sha256 leaves.length leaves

namespace TranscriptMerkleTree

def root (tree : TranscriptMerkleTree) : Hash := (tree.levels.getLast?.bind List.head?).getD .zero

/-- The siblings and directions on the way up from an index. -/
def siblings : List (List Hash) → Nat → List (Hash × MerkleDirection)
  | [], _ => []
  | level :: levels, idx =>
    (Merkle.sibling level idx (level.getD idx .zero), if idx % 2 = 0 then .right else .left) ::
      siblings levels (idx / 2)

def proof (tree : TranscriptMerkleTree) (targetIndex : Nat) : Option TranscriptProof := do
  let leaves ← tree.levels.head?
  let leaf ← leaves[targetIndex]?
  let steps := siblings (tree.levels.take (tree.levels.length - 1)) targetIndex
  return ⟨leaf, steps.map Prod.fst, steps.map Prod.snd⟩

end TranscriptMerkleTree

/-- One step of the verifier. -/
def climbStep (acc : Hash) (step : Hash × MerkleDirection) : Hash :=
  match step.2 with
  | .left => hashPair sha256 step.1 acc
  | .right => hashPair sha256 acc step.1

def verifyProof (root : Hash) (proof : TranscriptProof) : Bool :=
  proof.path.length = proof.directions.length ∧
    (proof.path.zip proof.directions).foldl (climbStep sha256) proof.leaf = root

def transcriptSegmentTree (envelopes : List RelayAuthEnvelope) (startSeq endSeq : U64) :
    TranscriptOutcome TranscriptMerkleTree := do
  let hashes ← collectSegmentHashes sha256 envelopes startSeq endSeq
  return ⟨buildMerkleLevels sha256 hashes⟩

def transcriptSegmentProofs (envelopes : List RelayAuthEnvelope) (startSeq endSeq : U64)
    (targetSeqs : List U64) : TranscriptOutcome (Hash × List TranscriptProof) := do
  require (targetSeqs ≠ []) .emptyTargets
  let tree ← transcriptSegmentTree sha256 envelopes startSeq endSeq
  let proofs ← targetSeqs.mapM fun targetSeq => do
    require (startSeq ≤ targetSeq ∧ targetSeq ≤ endSeq)
      (.targetOutOfRange targetSeq startSeq endSeq)
    getOr (tree.proof (targetSeq - startSeq).toNat) (.targetOutOfRange targetSeq startSeq endSeq)
  return (tree.root, proofs)

end

/-! ## Segments -/

def InRange (startSeq endSeq : U64) (env : RelayAuthEnvelope) : Prop :=
  startSeq ≤ env.seq ∧ env.seq ≤ endSeq

instance {startSeq endSeq : U64} {env : RelayAuthEnvelope} :
    Decidable (InRange startSeq endSeq env) :=
  inferInstanceAs (Decidable (_ ∧ _))

/-- The envelopes inside a range are `segment`: one for each number in increasing order, and none
after an envelope beyond the range. -/
structure Segment (envelopes : List RelayAuthEnvelope) (startSeq endSeq : U64)
    (segment : List RelayAuthEnvelope) : Prop where
  ordered : startSeq ≤ endSeq
  inside : envelopes.filter (fun env => InRange startSeq endSeq env) = segment
  numbered : segment.map (fun env => env.seq.toNat) =
    List.range' startSeq.toNat (endSeq.toNat + 1 - startSeq.toNat)
  precede : envelopes.Pairwise fun env later => endSeq < env.seq → ¬ InRange startSeq endSeq later

section
variable (sha256 : Bytes → Hash) {envelopes segment : List RelayAuthEnvelope}
  {startSeq endSeq : U64}

/-- The loop takes the envelopes of the range. The number that is due afterwards is capped. -/
theorem collectFrom_eq {expectedSeq : U64} {hashes : List Hash} {n : Nat}
    (hnumbered : (envelopes.filter (fun env => InRange startSeq endSeq env)).map
      (fun env => env.seq.toNat) = List.range' expectedSeq.toNat n)
    (hbound : expectedSeq.toNat + n ≤ 2 ^ 64)
    (hprecede : envelopes.Pairwise fun env later =>
      endSeq < env.seq → ¬ InRange startSeq endSeq later) :
    ∃ dueSeq : U64, collectFrom sha256 startSeq endSeq envelopes expectedSeq hashes =
      .ok (hashes ++ (envelopes.filter (fun env => InRange startSeq endSeq env)).map
        (relayAuthEnvelopeHash sha256), dueSeq) ∧
      dueSeq.toNat = min (expectedSeq.toNat + n) (2 ^ 64 - 1) := by
  induction envelopes generalizing expectedSeq hashes n with
  | nil =>
    obtain rfl : n = 0 := by simpa using hnumbered.symm
    exact ⟨expectedSeq, by simp [collectFrom], by have := expectedSeq.isLt; omega⟩
  | cons env rest ih =>
    obtain ⟨hlater, hrest⟩ := List.pairwise_cons.mp hprecede
    rw [collectFrom]
    by_cases hbefore : env.seq < startSeq
    · have hout : ¬ InRange startSeq endSeq env := fun h => absurd h.1 (by bv_omega)
      rw [if_pos hbefore]
      rw [List.filter_cons_of_neg (by simpa using hout)] at hnumbered ⊢
      exact ih hnumbered hbound hrest
    rw [if_neg hbefore]
    by_cases hbeyond : endSeq < env.seq
    · have hout : ¬ InRange startSeq endSeq env := fun h => absurd h.2 (by bv_omega)
      have hnone : rest.filter (fun env => InRange startSeq endSeq env) = [] :=
        List.filter_eq_nil_iff.mpr fun later hmem => by simpa using hlater later hmem hbeyond
      rw [if_pos hbeyond]
      rw [List.filter_cons_of_neg (by simpa using hout), hnone] at hnumbered ⊢
      obtain rfl : n = 0 := by simpa using hnumbered.symm
      exact ⟨expectedSeq, by simp, by have := expectedSeq.isLt; omega⟩
    have hin : InRange startSeq endSeq env := ⟨by bv_omega, by bv_omega⟩
    rw [if_neg hbeyond]
    rw [List.filter_cons_of_pos (by simpa using hin)] at hnumbered ⊢
    obtain ⟨n, rfl⟩ : ∃ m, n = m + 1 := by
      cases n with
      | zero => simp at hnumbered
      | succ m => exact ⟨m, rfl⟩
    rw [List.map_cons, List.range'_succ] at hnumbered
    obtain ⟨hdue, hnumbered⟩ := List.cons.inj hnumbered
    rw [if_neg (not_not.mpr (BitVec.eq_of_toNat_eq hdue))]
    have hnext := toNat_saturatingAdd (a := expectedSeq) (b := 1)
    rw [show (1 : U64).toNat = 1 from rfl] at hnext
    -- Only at the largest number does the next one repeat it, and then no envelope is left.
    obtain ⟨dueSeq, hrun, hto⟩ := @ih (saturatingAdd expectedSeq 1)
      (hashes ++ [relayAuthEnvelopeHash sha256 env]) n (by
        rw [hnumbered]
        cases n with
        | zero => rfl
        | succ m => rw [hnext, Nat.min_eq_left (by omega)]) (by omega) hrest
    exact ⟨dueSeq, by simpa using hrun, by omega⟩

namespace Segment

variable (h : Segment envelopes startSeq endSeq segment)
include h

theorem length : segment.length = endSeq.toNat + 1 - startSeq.toNat := by
  have := congrArg List.length h.numbered
  simpa using this

theorem pos : 0 < segment.length := by
  have := h.ordered
  rw [h.length]
  bv_omega

theorem collectFrom : ∃ dueSeq : U64, collectFrom sha256 startSeq endSeq envelopes startSeq [] =
      .ok (segment.map (relayAuthEnvelopeHash sha256), dueSeq) ∧
      dueSeq.toNat = min (endSeq.toNat + 1) (2 ^ 64 - 1) := by
  have hordered : startSeq.toNat ≤ endSeq.toNat := h.ordered
  have hend := endSeq.isLt
  have hnumbered := h.numbered
  rw [← h.inside] at hnumbered ⊢
  obtain ⟨dueSeq, hrun, hdue⟩ := @collectFrom_eq sha256 _ _ _ _ [] _ hnumbered (by omega) h.precede
  exact ⟨dueSeq, by simpa using hrun, by omega⟩

theorem collectSegmentHashes_eq : collectSegmentHashes sha256 envelopes startSeq endSeq =
      if endSeq.toNat < 2 ^ 64 - 1 then .ok (segment.map (relayAuthEnvelopeHash sha256))
      else .error (.missingSequence endSeq) := by
  obtain ⟨dueSeq, hrun, hdue⟩ := h.collectFrom sha256
  have hne : segment.map (relayAuthEnvelopeHash sha256) ≠ [] := by
    have := h.pos
    simpa using List.length_pos_iff.mp this
  have hend := endSeq.isLt
  simp only [collectSegmentHashes, hrun, require, if_pos h.ordered, bind, Except.bind, if_pos hne,
    BitVec.lt_def]
  by_cases hlt : endSeq.toNat < 2 ^ 64 - 1
  · rw [if_pos hlt, if_pos (by omega)]
    rfl
  · have hsame : dueSeq = endSeq := BitVec.eq_of_toNat_eq (by omega)
    rw [if_neg hlt, if_neg (by omega), hsame]

theorem getElem?_target (hstart : startSeq ≤ targetSeq) (hend : targetSeq ≤ endSeq) :
    ∃ env, segment[(targetSeq - startSeq).toNat]? = some env ∧ env.seq = targetSeq := by
  have hs : startSeq.toNat ≤ targetSeq.toNat := hstart
  have he : targetSeq.toNat ≤ endSeq.toNat := hend
  have hidx : (targetSeq - startSeq).toNat = targetSeq.toNat - startSeq.toNat :=
    BitVec.toNat_sub_of_le hstart
  have hlt : (targetSeq - startSeq).toNat < segment.length := by rw [h.length]; omega
  refine ⟨_, List.getElem?_eq_getElem hlt, BitVec.eq_of_toNat_eq ?_⟩
  have hseq := congrArg (fun l => l[(targetSeq - startSeq).toNat]?) h.numbered
  simp only [List.getElem?_map, List.getElem?_eq_getElem hlt, Option.map_some] at hseq
  rw [List.getElem?_range' (by omega)] at hseq
  have := Option.some.inj hseq
  omega

end Segment

/-! ## Proofs that are given out -/

theorem levelsFrom_ne_nil : levelsFrom sha256 rounds level ≠ [] := by
  cases rounds with
  | zero => simp [levelsFrom]
  | succ rounds => rw [levelsFrom]; split <;> simp

theorem head?_levelsFrom : (levelsFrom sha256 rounds level).head? = some level := by
  cases rounds with
  | zero => rfl
  | succ rounds => rw [levelsFrom]; split <;> rfl

theorem getLast?_levelsFrom {rounds depth : Nat} {level : List Hash} :
    (levelsFrom sha256 rounds level).getLast? =
      some (Merkle.top (fun _ => hashPair sha256) rounds depth level) := by
  induction rounds generalizing depth level with
  | zero => rfl
  | succ rounds ih =>
    rw [levelsFrom, Merkle.top]
    split
    · rw [List.getLast?_cons, @ih (depth + 1)]
      rfl
    · rfl

/-- The walk along the siblings of an index ends at the last level. -/
theorem foldl_siblings (hleaf : level[idx]? = some leaf) (hrounds : level.length ≤ rounds) :
    (levelsFrom sha256 rounds level).getLast?.bind List.head? =
      some ((TranscriptMerkleTree.siblings (levelsFrom sha256 rounds level).dropLast idx).foldl
        (climbStep sha256) leaf) := by
  obtain ⟨hidx, -⟩ := List.getElem?_eq_some_iff.mp hleaf
  induction rounds generalizing idx level leaf with
  | zero => omega
  | succ rounds ih =>
    rw [levelsFrom]
    split
    · next hwide =>
      have hup := Merkle.getElem?_levelUp_stepPair (hashPair sha256) hleaf
      have hlen := Merkle.length_levelUp (hashPair sha256) level
      have hwalk := ih hup (by omega) (by omega)
      rw [List.getLast?_cons, List.dropLast_cons_of_ne_nil (levelsFrom_ne_nil sha256),
        TranscriptMerkleTree.siblings, List.foldl_cons]
      have hstep : climbStep sha256 leaf (Merkle.sibling level idx (level.getD idx .zero),
          if idx % 2 = 0 then .right else .left) =
          hashPair sha256 (Merkle.stepPair leaf idx (Merkle.sibling level idx leaf)).1
            (Merkle.stepPair leaf idx (Merkle.sibling level idx leaf)).2 := by
        rw [List.getD_eq_getElem?_getD, hleaf]
        unfold climbStep Merkle.stepPair
        split <;> simp_all
      rw [hstep, ← hwalk]
      cases hlast :
        (levelsFrom sha256 rounds (Merkle.levelUp (hashPair sha256) level)).getLast? with
      | none => exact absurd (List.getLast?_eq_none_iff.mp hlast) (levelsFrom_ne_nil sha256)
      | some last => rfl
    · obtain rfl : idx = 0 := by omega
      simpa [TranscriptMerkleTree.siblings, List.head?_eq_getElem?] using hleaf

def segmentTree (sha256 : Bytes → Hash) (segment : List RelayAuthEnvelope) : TranscriptMerkleTree :=
  ⟨buildMerkleLevels sha256 (segment.map (relayAuthEnvelopeHash sha256))⟩

theorem levels_segmentTree (hpos : 0 < segment.length) : (segmentTree sha256 segment).levels =
      levelsFrom sha256 segment.length (segment.map (relayAuthEnvelopeHash sha256)) := by
  have hne : segment.map (relayAuthEnvelopeHash sha256) ≠ [] := by
    simpa using List.length_pos_iff.mp hpos
  rw [segmentTree, buildMerkleLevels, if_neg hne, List.length_map]

variable {env : RelayAuthEnvelope}

/-- Each index has a proof from its envelope's hash, and it is accepted. -/
theorem proof_segmentTree (henv : segment[idx]? = some env) :
    ∃ proof, (segmentTree sha256 segment).proof idx = some proof ∧
      proof.leaf = relayAuthEnvelopeHash sha256 env ∧
      verifyProof sha256 (segmentTree sha256 segment).root proof = true := by
  obtain ⟨hidx, -⟩ := List.getElem?_eq_some_iff.mp henv
  have hlevels := @levels_segmentTree sha256 segment (by omega)
  have hleaf : (segment.map (relayAuthEnvelopeHash sha256))[idx]? =
      some (relayAuthEnvelopeHash sha256 env) := by simp [henv]
  have hwalk := foldl_siblings sha256 hleaf (List.length_map _).le
  rw [← hlevels, List.dropLast_eq_take] at hwalk
  obtain ⟨steps, hsteps⟩ : ∃ steps, steps = TranscriptMerkleTree.siblings
      ((segmentTree sha256 segment).levels.take ((segmentTree sha256 segment).levels.length - 1))
      idx := ⟨_, rfl⟩
  rw [← hsteps] at hwalk
  refine ⟨⟨relayAuthEnvelopeHash sha256 env, steps.map Prod.fst, steps.map Prod.snd⟩, ?_, rfl, ?_⟩
  · have hhead : (segmentTree sha256 segment).levels.head? =
        some (segment.map (relayAuthEnvelopeHash sha256)) := by rw [hlevels, head?_levelsFrom]
    rw [TranscriptMerkleTree.proof, hhead, Option.bind_eq_bind, Option.bind_some, hleaf, hsteps]
    rfl
  · have hzip : (steps.map Prod.fst).zip (steps.map Prod.snd) = steps := by
      rw [List.zip_map']
      simp
    rw [verifyProof, TranscriptMerkleTree.root, hwalk, hzip]
    simp

/-- Each number of the range has a proof from its envelope's hash, and it is accepted. -/
def ProofsComplete (envelopes segment : List RelayAuthEnvelope) (startSeq endSeq : U64) : Prop :=
  ∀ targetSeqs ≠ [], (∀ targetSeq ∈ targetSeqs, startSeq ≤ targetSeq ∧ targetSeq ≤ endSeq) →
    ∃ root proofs, transcriptSegmentProofs sha256 envelopes startSeq endSeq targetSeqs =
        .ok (root, proofs) ∧
      List.Forall₂ (fun targetSeq proof => (∃ env ∈ segment, env.seq = targetSeq ∧
        proof.leaf = relayAuthEnvelopeHash sha256 env) ∧ verifyProof sha256 root proof = true)
        targetSeqs proofs

namespace Segment

variable (h : Segment envelopes startSeq endSeq segment)
include h

theorem transcriptSegmentTree_eq : transcriptSegmentTree sha256 envelopes startSeq endSeq =
      if endSeq.toNat < 2 ^ 64 - 1 then .ok (segmentTree sha256 segment)
      else .error (.missingSequence endSeq) := by
  rw [transcriptSegmentTree, h.collectSegmentHashes_eq]
  split <;> rfl

theorem mapM_proof
    (htargets : ∀ targetSeq ∈ targetSeqs, startSeq ≤ targetSeq ∧ targetSeq ≤ endSeq) :
    ∃ proofs, (targetSeqs.mapM fun targetSeq => do
        require (startSeq ≤ targetSeq ∧ targetSeq ≤ endSeq)
          (TranscriptError.targetOutOfRange targetSeq startSeq endSeq)
        getOr ((segmentTree sha256 segment).proof (targetSeq - startSeq).toNat)
          (.targetOutOfRange targetSeq startSeq endSeq)) = .ok proofs ∧
      List.Forall₂ (fun targetSeq proof => (∃ env ∈ segment, env.seq = targetSeq ∧
        proof.leaf = relayAuthEnvelopeHash sha256 env) ∧
        verifyProof sha256 (segmentTree sha256 segment).root proof = true) targetSeqs proofs := by
  induction targetSeqs with
  | nil => exact ⟨[], rfl, .nil⟩
  | cons targetSeq rest ih =>
    obtain ⟨hstart, hend⟩ := htargets targetSeq List.mem_cons_self
    obtain ⟨proofs, hrun, hproofs⟩ := ih fun t ht => htargets t (List.mem_cons_of_mem _ ht)
    obtain ⟨env, henv, hseq⟩ := h.getElem?_target hstart hend
    obtain ⟨proof, hproof, hleaf, hverify⟩ := proof_segmentTree sha256 henv
    refine ⟨proof :: proofs, ?_, .cons ⟨⟨env, List.mem_of_getElem? henv, hseq, hleaf⟩,
      hverify⟩ hproofs⟩
    rw [List.mapM_cons, hrun, require, if_pos ⟨hstart, hend⟩, hproof]
    rfl

/-- Only a range up to the largest number has no proofs. -/
theorem complete_iff :
    ProofsComplete sha256 envelopes segment startSeq endSeq ↔ endSeq.toNat < 2 ^ 64 - 1 := by
  constructor
  · intro hcomplete
    by_contra hlast
    obtain ⟨root, proofs, hrun, -⟩ := hcomplete [startSeq] (List.cons_ne_nil _ _) fun t ht => by
      rw [List.mem_singleton.mp ht]
      exact ⟨BitVec.le_refl _, h.ordered⟩
    rw [transcriptSegmentProofs, h.transcriptSegmentTree_eq, if_neg hlast] at hrun
    cases hrun
  · intro hlast targetSeqs hne htargets
    obtain ⟨proofs, hrun, hproofs⟩ := h.mapM_proof sha256 htargets
    refine ⟨_, proofs, ?_, hproofs⟩
    rw [transcriptSegmentProofs, require, if_pos hne, h.transcriptSegmentTree_eq, if_pos hlast]
    simp only [bind, Except.bind] at hrun ⊢
    rw [hrun]
    rfl

end Segment

/-! ## Proofs that are accepted -/

def pairMessage (p : Hash × Hash) : Bytes := p.1.bytes ++ p.2.bytes

abbrev segmentPairs (segment : List RelayAuthEnvelope) : List (Nat × Hash × Hash) :=
  Merkle.topPairs (fun _ => hashPair sha256) segment.length 0
    (segment.map (relayAuthEnvelopeHash sha256))

/-- The messages hashed for a segment: its envelopes, then the pairs of its tree. -/
def segmentMessages (segment : List RelayAuthEnvelope) : List Bytes :=
  segment.map RelayAuthEnvelope.transcriptMessage ++
    (segmentPairs sha256 segment).map fun p => pairMessage p.2

/-- The pair that a step of the verifier hashes. -/
def climbPair (acc : Hash) (step : Hash × MerkleDirection) : Hash × Hash :=
  match step.2 with
  | .left => (step.1, acc)
  | .right => (acc, step.1)

/-- The messages hashed when a proof is verified. -/
def TranscriptProof.messages (proof : TranscriptProof) : List Bytes :=
  (Merkle.climbPairs (hashPair sha256) climbPair proof.leaf
    (proof.path.zip proof.directions)).map pairMessage

/-- Every accepted proof starts at an envelope of the segment. -/
def ProofsSound (envelopes segment : List RelayAuthEnvelope) (startSeq endSeq : U64) : Prop :=
  ∀ tree proof, transcriptSegmentTree sha256 envelopes startSeq endSeq = .ok tree →
    Set.InjOn sha256 {m | m ∈ segmentMessages sha256 segment ++ proof.messages sha256} →
    verifyProof sha256 tree.root proof = true →
    ∃ env ∈ segment, proof.leaf = relayAuthEnvelopeHash sha256 env

/-- Every accepted proof that is as long as the tree is deep starts at an envelope of the
segment. -/
def DeepProofsSound (envelopes segment : List RelayAuthEnvelope) (startSeq endSeq : U64) : Prop :=
  ∀ tree proof, transcriptSegmentTree sha256 envelopes startSeq endSeq = .ok tree →
    proof.path.length = Nat.clog 2 segment.length →
    Set.InjOn sha256 {m | m ∈ segmentMessages sha256 segment ++ proof.messages sha256} →
    verifyProof sha256 tree.root proof = true →
    ∃ env ∈ segment, proof.leaf = relayAuthEnvelopeHash sha256 env

theorem climbStep_eq : climbStep sha256 =
    fun acc step => hashPair sha256 (climbPair acc step).1 (climbPair acc step).2 := by
  funext acc ⟨sibling, direction⟩
  cases direction <;> rfl

theorem length_pairMessage (p : Hash × Hash) : (pairMessage p).length = 64 := by
  rw [pairMessage, List.length_append, p.1.size_eq, p.2.size_eq]

theorem pairMessage_inj (h : pairMessage p = pairMessage q) : p = q := by
  obtain ⟨hleft, hright⟩ := List.append_inj h (p.1.size_eq.trans q.1.size_eq.symm)
  exact Prod.ext (Hash.ext_bytes hleft) (Hash.ext_bytes hright)

/-- A walk along a path ends at the digest of its last message. -/
theorem foldl_climbStep (acc : Hash) (hne : steps ≠ []) :
    ∃ p ∈ Merkle.climbPairs (hashPair sha256) climbPair acc steps,
      steps.foldl (climbStep sha256) acc = sha256 (pairMessage p) := by
  rw [climbStep_eq]
  induction steps generalizing acc with
  | nil => exact absurd rfl hne
  | cons step steps ih =>
    cases steps with
    | nil => exact ⟨_, List.mem_cons_self, rfl⟩
    | cons next rest =>
      obtain ⟨p, hmem, hp⟩ := ih _ (List.cons_ne_nil _ _)
      exact ⟨p, List.mem_cons_of_mem _ hmem, hp⟩

theorem verifyProof_iff :
    verifyProof sha256 root proof = true ↔ proof.path.length = proof.directions.length ∧
      (proof.path.zip proof.directions).foldl (climbStep sha256) proof.leaf = root := by
  simp [verifyProof]

theorem root_singleton (env : RelayAuthEnvelope) :
    (segmentTree sha256 [env]).root = relayAuthEnvelopeHash sha256 env := rfl

/-- The only accepted proofs over one envelope start at it, unless its message is as long as a
pair. -/
theorem leaf_of_verifyProof_singleton (hlength : env.transcriptMessage.length ≠ 64)
    (hclean : Set.InjOn sha256 {m | m ∈ segmentMessages sha256 [env] ++ proof.messages sha256})
    (hverify : verifyProof sha256 (segmentTree sha256 [env]).root proof = true) :
    proof.leaf = relayAuthEnvelopeHash sha256 env := by
  obtain ⟨-, hwalk⟩ := (verifyProof_iff sha256).mp hverify
  by_cases hpath : proof.path.zip proof.directions = []
  · rw [hpath] at hwalk
    exact hwalk
  · obtain ⟨p, hmem, hdigest⟩ := foldl_climbStep sha256 proof.leaf hpath
    have hsame : pairMessage p = env.transcriptMessage :=
      hclean (List.mem_append_right _ (List.mem_map_of_mem hmem))
        (List.mem_append_left _ (by simp [segmentMessages])) (hdigest.symm.trans hwalk)
    exact absurd (hsame ▸ length_pairMessage p) hlength

theorem domain_isPrefix_message (env : RelayAuthEnvelope) :
    Bytes.ofString signingDomainV1 <+: env.transcriptMessage := List.prefix_append _ _

theorem length_signingDomainV1 : (Bytes.ofString signingDomainV1).length = 11 := by decide

/-- A message that is made of two digests has the domain at the front of the first. -/
theorem domain_isPrefix_of_pair (hleft : left.length = 32)
    (h : env.transcriptMessage = left ++ right) : Bytes.ofString signingDomainV1 <+: left := by
  have hfront := domain_isPrefix_message env
  rw [h] at hfront
  refine List.prefix_of_prefix_length_le hfront (List.prefix_append _ _) ?_
  rw [length_signingDomainV1, hleft]
  decide

/-- No digest of the segment looks like the start of an envelope's message. -/
def DigestsApart (segment : List RelayAuthEnvelope) : Prop :=
  ∀ m ∈ segmentMessages sha256 segment, ¬ Bytes.ofString signingDomainV1 <+: (sha256 m).bytes

theorem relayAuthEnvelopeHash_mem (h : env ∈ segment) :
    env.transcriptMessage ∈ segmentMessages sha256 segment :=
  List.mem_append_left _ (List.mem_map_of_mem h)

theorem pair_mem_segmentMessages (h : p ∈ segmentPairs sha256 segment) :
    pairMessage p.2 ∈ segmentMessages sha256 segment :=
  List.mem_append_right _ (List.mem_map.mpr ⟨p, h, rfl⟩)

/-- The first node of a pair is the digest of a message of the segment. -/
theorem exists_message_of_pair (h : p ∈ segmentPairs sha256 segment) :
    ∃ m ∈ segmentMessages sha256 segment, p.2.1 = sha256 m := by
  rcases Merkle.fst_of_mem_topPairs _ h with hleaf | ⟨q, hq, heq⟩
  · obtain ⟨env, henv, hhash⟩ := List.mem_map.mp hleaf
    exact ⟨_, relayAuthEnvelopeHash_mem sha256 henv, hhash.symm⟩
  · exact ⟨_, pair_mem_segmentMessages sha256 hq, heq⟩

theorem top_segment (hpos : 0 < segment.length) :
    Merkle.top (fun _ => hashPair sha256) segment.length 0
      (segment.map (relayAuthEnvelopeHash sha256)) = [(segmentTree sha256 segment).root] := by
  obtain ⟨root, hroot⟩ := List.length_eq_one_iff.mp (@Merkle.length_top _
    (segment.map (relayAuthEnvelopeHash sha256)) segment.length 0 (fun _ => hashPair sha256)
    (List.length_pos_iff.mp (by simpa using hpos)) (List.length_map _).le)
  rw [TranscriptMerkleTree.root, levels_segmentTree sha256 hpos, @getLast?_levelsFrom sha256 _ 0,
    hroot]
  rfl

/-- Over more than one envelope the root is the digest of a pair. -/
theorem exists_pair_of_root (hwide : 1 < segment.length) :
    ∃ p ∈ segmentPairs sha256 segment,
      (segmentTree sha256 segment).root = hashPair sha256 p.2.1 p.2.2 := by
  have hroot := top_segment sha256 (show 0 < segment.length by omega)
  obtain ⟨rounds, hrounds⟩ : ∃ n, segment.length = n + 1 := ⟨segment.length - 1, by omega⟩
  rw [segmentPairs, hrounds]
  rw [hrounds] at hroot
  exact Merkle.exists_pair_of_mem_top (fun _ => hashPair sha256) (by simpa using hwide)
    (hroot ▸ List.mem_singleton_self _)

/-- A walk of the depth of the tree ends at the root only where it starts at a leaf. -/
theorem deepProofsSound (hsegment : Segment envelopes startSeq endSeq segment) :
    DeepProofsSound sha256 envelopes segment startSeq endSeq := by
  intro tree proof htree hdeep hclean hverify
  rw [hsegment.transcriptSegmentTree_eq] at htree
  split at htree
  · obtain rfl := Except.ok.inj htree
    obtain ⟨hlengths, hwalk⟩ := (verifyProof_iff sha256).mp hverify
    rw [climbStep_eq] at hwalk
    have hpair (x : Hash) (step : Hash × MerkleDirection) :
        (climbPair x step).1 = x ∨ (climbPair x step).2 = x := by
      unfold climbPair
      split
      · exact .inr rfl
      · exact .inl rfl
    have hmem : proof.leaf ∈ segment.map (relayAuthEnvelopeHash sha256) := by
      refine Merkle.mem_of_climb _ climbPair hpair (List.length_map _).le
        (top_segment sha256 hsegment.pos) ?_ hwalk fun p hp q hq heq =>
          .inl (pairMessage_inj (hclean ?_ ?_ heq))
      · rw [List.length_zip, ← hlengths, min_self, List.length_map, hdeep]
      · exact List.mem_append_right _ (List.mem_map_of_mem hp)
      · exact List.mem_append_left _ (pair_mem_segmentMessages sha256 hq)
    obtain ⟨env, henv, hleaf⟩ := List.mem_map.mp hmem
    exact ⟨env, henv, hleaf.symm⟩
  · cases htree

/-- Over more than one envelope the root is no envelope's hash, and it is accepted without a
path. -/
theorem not_sound_of_wide (hclean : Set.InjOn sha256 {m | m ∈ segmentMessages sha256 segment})
    (happart : DigestsApart sha256 segment) (hwide : 1 < segment.length)
    (htree : transcriptSegmentTree sha256 envelopes startSeq endSeq =
      .ok (segmentTree sha256 segment)) :
    ¬ ProofsSound sha256 envelopes segment startSeq endSeq := by
  intro hsound
  obtain ⟨p, hp, hroot⟩ := exists_pair_of_root sha256 hwide
  obtain ⟨env, henv, hleaf⟩ := hsound _ ⟨(segmentTree sha256 segment).root, [], []⟩ htree
    (by simpa [TranscriptProof.messages, Merkle.climbPairs] using hclean) (by simp [verifyProof])
  have hsame : env.transcriptMessage = pairMessage p.2 :=
    hclean (relayAuthEnvelopeHash_mem sha256 henv) (pair_mem_segmentMessages sha256 hp)
      (hleaf.symm.trans hroot)
  obtain ⟨m, hm, hfirst⟩ := exists_message_of_pair sha256 hp
  exact happart m hm (hfirst ▸ domain_isPrefix_of_pair p.2.1.size_eq hsame)

/-- An envelope whose message is as long as a pair can be opened as one. -/
theorem not_sound_of_pairLength (happart : DigestsApart sha256 [env])
    (hclean : Set.InjOn sha256 {m | m ∈ segmentMessages sha256 [env]})
    (hlength : env.transcriptMessage.length = 64)
    (htree : transcriptSegmentTree sha256 envelopes startSeq endSeq =
      .ok (segmentTree sha256 [env])) :
    ¬ ProofsSound sha256 envelopes [env] startSeq endSeq := by
  intro hsound
  let left : Hash := ⟨env.transcriptMessage.take 32, by rw [List.length_take]; omega⟩
  let right : Hash := ⟨env.transcriptMessage.drop 32, by rw [List.length_drop]; omega⟩
  have hpair : env.transcriptMessage = left.bytes ++ right.bytes :=
    (List.take_append_drop 32 _).symm
  have hmem := relayAuthEnvelopeHash_mem sha256 (List.mem_singleton_self env)
  obtain ⟨env', henv', hleaf⟩ := hsound _ ⟨left, [right], [.right]⟩ htree
    (by
      refine hclean.mono fun m hm => ?_
      rcases List.mem_append.mp hm with hm | hm
      · exact hm
      · rw [List.mem_singleton.mp hm]
        exact (congrArg (· ∈ segmentMessages sha256 [env]) hpair).mp hmem)
    (by
      rw [verifyProof_iff, root_singleton, relayAuthEnvelopeHash, hpair]
      exact ⟨rfl, rfl⟩)
  rw [List.mem_singleton.mp henv'] at hleaf
  have hfront := domain_isPrefix_of_pair left.size_eq hpair
  rw [show left = sha256 env.transcriptMessage from hleaf] at hfront
  exact happart _ hmem hfront

/-- A segment has its proofs where the range ends before the largest number, and every accepted
proof that is as long as the tree is deep starts at an envelope. Where the segment is one envelope,
with a message that is not as long as a pair of digests, every accepted proof does; and only there,
where digests are told apart from each other and from the start of a message. -/
theorem transcript_proofs_complete_and_sound_iff
    (hsegment : Segment envelopes startSeq endSeq segment) :
    (ProofsComplete sha256 envelopes segment startSeq endSeq ↔ endSeq.toNat < 2 ^ 64 - 1) ∧
    DeepProofsSound sha256 envelopes segment startSeq endSeq ∧
    (endSeq.toNat < 2 ^ 64 - 1 ∧ startSeq = endSeq ∧
        (∀ env ∈ segment, env.transcriptMessage.length ≠ 64) →
      ProofsComplete sha256 envelopes segment startSeq endSeq ∧
        ProofsSound sha256 envelopes segment startSeq endSeq) ∧
    (Set.InjOn sha256 {m | m ∈ segmentMessages sha256 segment} → DigestsApart sha256 segment →
      ProofsComplete sha256 envelopes segment startSeq endSeq ∧
        ProofsSound sha256 envelopes segment startSeq endSeq →
      endSeq.toNat < 2 ^ 64 - 1 ∧ startSeq = endSeq ∧
        ∀ env ∈ segment, env.transcriptMessage.length ≠ 64) := by
  have hordered : startSeq.toNat ≤ endSeq.toNat := hsegment.ordered
  have hlen := hsegment.length
  have htree := hsegment.transcriptSegmentTree_eq sha256
  rw [hsegment.complete_iff sha256]
  refine ⟨.rfl, deepProofsSound sha256 hsegment, ?_, ?_⟩
  · rintro ⟨hlast, rfl, hlength⟩
    refine ⟨hlast, fun tree proof htree' hclean hverify => ?_⟩
    obtain ⟨env, rfl⟩ := List.length_eq_one_iff.mp (show segment.length = 1 by omega)
    rw [if_pos hlast] at htree
    obtain rfl := Except.ok.inj (htree.symm.trans htree')
    exact ⟨env, List.mem_singleton_self env,
      leaf_of_verifyProof_singleton sha256 (hlength env (List.mem_singleton_self env))
        hclean hverify⟩
  · rintro hclean happart ⟨hlast, hsound⟩
    rw [if_pos hlast] at htree
    have hnarrow : segment.length = 1 := by
      by_contra hwide
      exact not_sound_of_wide sha256 hclean happart (by omega) htree hsound
    obtain ⟨env, rfl⟩ := List.length_eq_one_iff.mp hnarrow
    refine ⟨hlast, BitVec.eq_of_toNat_eq (by omega), fun env' henv' hlength => ?_⟩
    rw [List.mem_singleton.mp henv'] at hlength
    exact not_sound_of_pairLength sha256 happart hclean hlength htree hsound

end

def sampleEnvelope (seq : U64) : RelayAuthEnvelope :=
  ⟨specVersion, "trnm", "task", "session", seq, 1000, "INPUT_CHUNK", "alice", "bob", "n", [1, 2, 3],
    "hash", "sig"⟩

abbrev sampleSegment : List RelayAuthEnvelope := [sampleEnvelope 1, sampleEnvelope 2]

theorem segment_sample : Segment sampleSegment 1 2 sampleSegment :=
  ⟨by decide, by decide, by decide, by decide⟩

theorem injOn_sampleSegment :
    Set.InjOn Hash.checksum {m | m ∈ segmentMessages Hash.checksum sampleSegment} := by
  have hdigests : ((segmentMessages Hash.checksum sampleSegment).map Hash.checksum).Nodup := by
    decide +kernel
  exact fun m hm m' hm' => List.inj_on_of_nodup_map hdigests hm hm'

/-- One envelope has complete and sound proofs. Two have not, but their proofs of one step are
sound. -/
theorem sample_transcript_proofs_complete_and_sound :
    (ProofsComplete Hash.checksum [sampleEnvelope 1] [sampleEnvelope 1] 1 1 ∧
      ProofsSound Hash.checksum [sampleEnvelope 1] [sampleEnvelope 1] 1 1) ∧
    DeepProofsSound Hash.checksum sampleSegment sampleSegment 1 2 ∧
    ProofsComplete Hash.checksum sampleSegment sampleSegment 1 2 ∧
      ¬ ProofsSound Hash.checksum sampleSegment sampleSegment 1 2 := by
  have hone : Segment [sampleEnvelope 1] 1 1 [sampleEnvelope 1] :=
    ⟨by decide, by decide, by decide, List.pairwise_singleton _ _⟩
  obtain ⟨-, -, hboth, -⟩ := transcript_proofs_complete_and_sound_iff Hash.checksum hone
  obtain ⟨hcomplete, hdeep, -, honly⟩ :=
    transcript_proofs_complete_and_sound_iff Hash.checksum segment_sample
  have happart : DigestsApart Hash.checksum sampleSegment := by
    unfold DigestsApart
    decide +kernel
  have hcomplete := hcomplete.mpr (by decide)
  refine ⟨hboth ⟨by decide, rfl, by decide⟩, hdeep, hcomplete, fun hsound => ?_⟩
  exact absurd (honly injOn_sampleSegment happart ⟨hcomplete, hsound⟩).2.1 (by decide)

/-- Over two envelopes the root is accepted as a leaf, and it is the hash of neither. -/
theorem root_accepted_as_leaf :
    Segment [sampleEnvelope 1, sampleEnvelope 2] 1 2 [sampleEnvelope 1, sampleEnvelope 2] ∧
    ∃ tree, transcriptSegmentTree Hash.checksum [sampleEnvelope 1, sampleEnvelope 2] 1 2 =
      .ok tree ∧
      verifyProof Hash.checksum tree.root ⟨tree.root, [], []⟩ = true ∧
      Set.InjOn Hash.checksum {m | m ∈
        segmentMessages Hash.checksum [sampleEnvelope 1, sampleEnvelope 2] ++
        TranscriptProof.messages Hash.checksum ⟨tree.root, [], []⟩} ∧
      ∀ env ∈ [sampleEnvelope 1, sampleEnvelope 2],
        tree.root ≠ relayAuthEnvelopeHash Hash.checksum env := by
  refine ⟨segment_sample, segmentTree Hash.checksum sampleSegment,
    ?_, by simp [verifyProof], ?_, ?_⟩
  · rw [segment_sample.transcriptSegmentTree_eq]
    rfl
  · simpa only [TranscriptProof.messages, List.zip_nil_left, Merkle.climbPairs, List.map_nil,
      List.append_nil] using injOn_sampleSegment
  · decide +kernel

end Trillionnium.Relay
