import Trillionnium.Lib.Collect
import Trillionnium.Pon.Roots

/-!
# Allocation trees

The root over the allocation leaves of a release, `allocation_root` of `pon_executor.rs`, and the
proofs of `allocation_root_and_proofs` of `contract_wire.py`, which collects for every leaf the
nodes beside its group. A pair is sorted before it is hashed, so a proof does not tell positions.
Its length is all that a claim checks besides the end of the fold.
-/

namespace Trillionnium.Pon

open Lib

section
variable (sha256 : Bytes → Hash)

/-! ## `pon_executor.rs` -/

def allocationLeaf (cid payee : Hash) (score : U64) : Hash :=
  hash sha256 "allocation-leaf" [cid.bytes, payee.bytes, Bytes.ofNat 8 score.toNat]

def pair (a b : Hash) : Hash :=
  if a < b then hash sha256 "allocation-node" [a.bytes, b.bytes]
  else hash sha256 "allocation-node" [b.bytes, a.bytes]

def allocationRound (leaves : List Hash) : List Hash :=
  (chunkPairs (padOdd leaves)).map fun x => pair sha256 x.1 x.2

theorem allocationRound_eq (leaves : List Hash) :
    allocationRound sha256 leaves = Merkle.levelUp (pair sha256) leaves := by
  rw [allocationRound, chunkPairs_padOdd, Merkle.levelUp_eq_map]

/-- `while leaves.len() > 1`. -/
def allocationRounds (leaves : List Hash) : List Hash :=
  if 1 < leaves.length then allocationRounds (allocationRound sha256 leaves) else leaves
termination_by leaves.length
decreasing_by
  rw [allocationRound_eq, Merkle.length_levelUp]
  omega

def allocationRoot (leaves : List Hash) : Except String Hash := do
  require (leaves ≠ []) "ROOT"
  getOr (allocationRounds sha256 leaves).head? "ROOT"

/-- The number of siblings that a claim must bring, `64 - (leaves - 1).leading_zeros()`. -/
def proofLength (leaves : U64) : Nat := 64 - (leaves - 1).clz.toNat

/-! ## `allocation_root_and_proofs` -/

/-- A row: contribution, payee and score. -/
structure AllocationRow where
  contribution : Hash
  payee : Hash
  score : Nat

/-- `allocation_leaf` of the oracle. -/
def AllocationRow.leaf (row : AllocationRow) : Except Raised Hash := do
  H sha256 "allocation-leaf" [row.contribution.bytes, row.payee.bytes, ← u64 row.score]

/-- The nodes of a level with the rows below each, and the proofs so far. -/
structure ProofState where
  leaves : List Hash
  groups : List (List Nat)
  proofs : List (List Hash)

/-- `for member in members:proofs[member].append(sibling)`. -/
def appendTo (sibling : Hash) (members : List Nat) (proofs : List (List Hash)) : List (List Hash) :=
  members.foldl (fun proofs member => proofs.modify member (· ++ [sibling])) proofs

/-- The proofs after a pair of nodes and of groups. -/
def pairProofs (proofs : List (List Hash)) (x : (Hash × Hash) × List Nat × List Nat) :
    List (List Hash) :=
  appendTo x.1.1 x.2.2 (appendTo x.1.2 x.2.1 proofs)

/-- An odd level gets an empty group. -/
def padGroups (leaves : List Hash) (groups : List (List Nat)) : List (List Nat) :=
  if leaves.length % 2 = 1 then groups ++ [[]] else groups

def proofRound (s : ProofState) : Except Raised ProofState := do
  let pairs := chunkPairs (padOdd s.leaves)
  let members := chunkPairs (padGroups s.leaves s.groups)
  let leaves ← pairs.mapM fun x =>
    H sha256 "allocation-node" [(min x.1 x.2).bytes, (max x.1 x.2).bytes]
  return ⟨leaves, members.map fun x => x.1 ++ x.2, (pairs.zip members).foldl pairProofs s.proofs⟩

theorem H_node (a b : Hash) :
    H sha256 "allocation-node" [(min a b).bytes, (max a b).bytes] = .ok (pair sha256 a b) := by
  rw [H_of_framed (framed_pair (by decide) _ _), pair]
  split
  · next hlt => rw [min_eq_left hlt.le, max_eq_right hlt.le]
  · next hge => rw [min_eq_right (le_of_not_gt hge), max_eq_left (le_of_not_gt hge)]

theorem proofRound_eq (s : ProofState) : proofRound sha256 s = .ok ⟨allocationRound sha256 s.leaves,
      (chunkPairs (padGroups s.leaves s.groups)).map fun x => x.1 ++ x.2,
      ((chunkPairs (padOdd s.leaves)).zip (chunkPairs (padGroups s.leaves s.groups))).foldl
        pairProofs s.proofs⟩ := by
  have hleaves := mapM_eq_ok fun x (_ : x ∈ chunkPairs (padOdd s.leaves)) => H_node sha256 x.1 x.2
  simp only [proofRound, hleaves]
  rfl

/-- `while len(leaves)>1`. -/
def proofRounds (s : ProofState) : Except Raised ProofState :=
  if 1 < s.leaves.length then
    match _h : proofRound sha256 s with
    | .ok next => proofRounds next
    | .error e => .error e
  else .ok s
termination_by s.leaves.length
decreasing_by
  obtain rfl := Except.ok.inj ((proofRound_eq sha256 s).symm.trans _h)
  rw [allocationRound_eq, Merkle.length_levelUp]
  omega

/-- The loop over leaves: the root, and the proofs in the order of the leaves. -/
def allocationProofs (leaves : List Hash) : Except Raised (Hash × List (List Hash)) := do
  let s ← proofRounds sha256 ⟨leaves, (List.range leaves.length).map fun i =>
    [i], leaves.map fun _ => []⟩
  return (← getOr s.leaves.head? .indexError, s.proofs)

/-- `sorted(rows,key=lambda r:r[0])`. -/
def sortRows (rows : List AllocationRow) : List AllocationRow :=
  rows.insertionSort fun r r' => r.contribution ≤ r'.contribution

def allocationRootAndProofs (rows : List AllocationRow) :
    Except Raised (Hash × OrdMap Hash (List Hash)) := do
  require (rows.length ≤ 256 ∧ rows ≠ []) (.valueError "allocation count")
  let leaves ← (sortRows rows).mapM (AllocationRow.leaf sha256)
  let (root, proofs) ← allocationProofs sha256 leaves
  return (root, .ofList (((sortRows rows).map (·.contribution)).zip proofs))

end

/-! ## Siblings collected by groups -/

section Groups
variable {sibling : Hash} {proofs : List (List Hash)} {i : Nat}

theorem getElem?_appendTo (h : members.Nodup) : (appendTo sibling members proofs)[i]? =
      if i ∈ members then proofs[i]?.map (· ++ [sibling]) else proofs[i]? := by
  induction members generalizing proofs with
  | nil => rfl
  | cons member members ih =>
    obtain ⟨hnew, h⟩ := List.nodup_cons.mp h
    rw [appendTo, List.foldl_cons, ← appendTo, ih h, List.getElem?_modify]
    by_cases heq : member = i
    · subst heq
      simp [hnew]
    · simp [heq, Ne.symm heq]

abbrev membersOf (x : (Hash × Hash) × List Nat × List Nat) : List Nat := x.2.1 ++ x.2.2

/-- Where every row is in one group, its proof gets the node beside that group. -/
theorem getElem?_pairProofs {todo : List ((Hash × Hash) × List Nat × List Nat)}
    (h : (todo.flatMap membersOf).Nodup) :
    (i ∉ todo.flatMap membersOf → (todo.foldl pairProofs proofs)[i]? = proofs[i]?) ∧
    ∀ x ∈ todo, (i ∈ x.2.1 → (todo.foldl pairProofs proofs)[i]? = proofs[i]?.map (· ++ [x.1.2])) ∧
      (i ∈ x.2.2 → (todo.foldl pairProofs proofs)[i]? = proofs[i]?.map (· ++ [x.1.1])) := by
  induction todo generalizing proofs with
  | nil => simp
  | cons x todo ih =>
    simp only [List.flatMap_cons] at h ⊢
    obtain ⟨hx, htodo, hapart⟩ := List.nodup_append'.mp h
    obtain ⟨hfirst, hsecond, hdisjoint⟩ := List.nodup_append'.mp hx
    obtain ⟨hrest, hmem⟩ := @ih (pairProofs proofs x) htodo
    have hpair : (pairProofs proofs x)[i]? = if i ∈ x.2.1 then proofs[i]?.map (· ++ [x.1.2])
        else if i ∈ x.2.2 then proofs[i]?.map (· ++ [x.1.1]) else proofs[i]? := by
      rw [pairProofs, getElem?_appendTo hsecond, getElem?_appendTo hfirst]
      by_cases hi : i ∈ x.2.1
      · have hnot : i ∉ x.2.2 := fun hi' => hdisjoint hi hi'
        simp [hi, hnot]
      · simp [hi]
    simp only [List.foldl_cons, List.mem_append, not_or, List.forall_mem_cons]
    refine ⟨fun ⟨hnot, hlater⟩ => ?_, ⟨fun hi => ?_, fun hi => ?_⟩, fun y hy => ?_⟩
    · rw [hrest hlater, hpair, if_neg hnot.1, if_neg hnot.2]
    · rw [hrest (hapart (List.mem_append_left _ hi)), hpair, if_pos hi]
    · rw [hrest (hapart (List.mem_append_right _ hi)), hpair, if_neg fun hi' =>
        hdisjoint hi' hi, if_pos hi]
    · have hnot (hi : i ∈ membersOf y) : (pairProofs proofs x)[i]? = proofs[i]? := by
        have hout := mt (@hapart i) (not_not.mpr (List.mem_flatMap.mpr ⟨y, hy, hi⟩))
        simp only [membersOf, List.mem_append, not_or] at hout
        rw [hpair, if_neg hout.1, if_neg hout.2]
      constructor
      · intro hi
        rw [(hmem y hy).1 hi, hnot (List.mem_append_left _ hi)]
      · intro hi
        rw [(hmem y hy).2 hi, hnot (List.mem_append_right _ hi)]

theorem mem_zip_chunkPairs {α β : Type} {l : List α} {m : List β} {x : (α × α) × β × β}
    (h : x ∈ (chunkPairs l).zip (chunkPairs m)) :
    (x.1.1, x.2.1) ∈ l.zip m ∧ (x.1.2, x.2.2) ∈ l.zip m := by
  induction l using chunkPairs.induct generalizing m with
  | case1 a b rest ih =>
    match m with
    | [] | [_] => simp [chunkPairs] at h
    | c :: d :: rest' =>
      simp only [chunkPairs, List.zip_cons_cons, List.mem_cons] at h ⊢
      rcases h with rfl | h
      · exact ⟨.inl rfl, .inr (.inl rfl)⟩
      · exact ⟨.inr (.inr (ih h).1), .inr (.inr (ih h).2)⟩
  | case2 l hshort =>
    rw [chunkPairs.eq_2 l hshort] at h
    simp at h

theorem length_chunkPairs {α : Type} (l : List α) : (chunkPairs l).length = l.length / 2 := by
  induction l using chunkPairs.induct with
  | case1 a b rest ih =>
    rw [chunkPairs, List.length_cons, ih, List.length_cons, List.length_cons]
    omega
  | case2 l hshort =>
    rcases l with _ | ⟨a, _ | ⟨b, rest⟩⟩
    · simp [chunkPairs]
    · simp [chunkPairs]
    · exact absurd rfl (hshort a b rest)

theorem flatMap_chunkPairs {l : List (List Nat)} (h : l.length % 2 = 0) :
    (chunkPairs l).flatMap (fun x => x.1 ++ x.2) = l.flatten := by
  induction l using chunkPairs.induct with
  | case1 a b rest ih =>
    simp only [List.length_cons] at h
    rw [chunkPairs, List.flatMap_cons, ih (by omega)]
    simp
  | case2 l hshort =>
    rcases l with _ | ⟨a, _ | ⟨b, rest⟩⟩
    · rfl
    · simp at h
    · exact absurd rfl (hshort a b rest)

end Groups

/-! ## The loop -/

section Loop
variable {sha256 : Bytes → Hash}

/-- After `k` turns every leaf folds along its proof to the node above its group. -/
structure Collected (sha256 : Bytes → Hash) (leaves : List Hash) (k : Nat) (s : ProofState) :
    Prop where
  width : s.groups.length = s.leaves.length
  members : s.groups.flatten = List.range leaves.length
  depth : k + Nat.clog 2 s.leaves.length = Nat.clog 2 leaves.length
  folds : ∀ x ∈ s.leaves.zip s.groups, ∀ i ∈ x.2, ∃ leaf proof, leaves[i]? = some leaf ∧
    s.proofs[i]? = some proof ∧ proof.length = k ∧ proof.foldl (pair sha256) leaf = x.1

theorem pair_comm (a b : Hash) : pair sha256 a b = pair sha256 b a := by
  unfold pair
  rcases lt_trichotomy a b with h | rfl | h
  · rw [if_pos h, if_neg h.not_gt]
  · rfl
  · rw [if_neg h.not_gt, if_pos h]

theorem length_padOdd {α : Type} (l : List α) : (padOdd l).length = (l.length + 1) / 2 * 2 := by
  unfold padOdd
  split
  · next hodd =>
    have hne : l ≠ [] := by
      rintro rfl
      simp at hodd
    rw [List.getLast?_eq_some_getLast hne, List.length_append, Option.toList_some,
      List.length_singleton]
    omega
  · omega

section
variable {leaves : List Hash} {k : Nat} {s : ProofState} (h : Collected sha256 leaves k s)
include h

theorem Collected.length_padGroups :
    (padGroups s.leaves s.groups).length = (s.leaves.length + 1) / 2 * 2 := by
  unfold padGroups
  split
  · rw [List.length_append, h.width, List.length_singleton]
    omega
  · rw [h.width]
    omega

theorem Collected.flatten_padGroups :
    (padGroups s.leaves s.groups).flatten = List.range leaves.length := by
  unfold padGroups
  split
  · rw [List.flatten_append, h.members]
    simp
  · exact h.members

/-- The node that pads a level stands above no row. -/
theorem Collected.mem_zip_of_mem (hi : i ∈ x.2)
    (hx : x ∈ (padOdd s.leaves).zip (padGroups s.leaves s.groups)) : x ∈ s.leaves.zip s.groups := by
  unfold padOdd padGroups at hx
  split at hx
  · rw [List.zip_append h.width.symm] at hx
    rcases List.mem_append.mp hx with hx | hx
    · exact hx
    · have hgroup := (List.of_mem_zip hx).2
      rw [List.mem_singleton.mp hgroup] at hi
      cases hi
  · exact hx

/-- One turn. -/
theorem Collected.proofRound (hwide : 1 < s.leaves.length) :
    ∃ s', proofRound sha256 s = .ok s' ∧ s'.leaves = allocationRound sha256 s.leaves ∧
      Collected sha256 leaves (k + 1) s' := by
  refine ⟨_, proofRound_eq sha256 s, rfl, ?_⟩
  have hlength : (chunkPairs (padOdd s.leaves)).length =
      (chunkPairs (padGroups s.leaves s.groups)).length := by
    rw [length_chunkPairs, length_chunkPairs, h.length_padGroups, length_padOdd]
  have hmembers : (((chunkPairs (padOdd s.leaves)).zip
      (chunkPairs (padGroups s.leaves s.groups))).flatMap
      membersOf) = List.range leaves.length := by
    rw [← h.flatten_padGroups, ← flatMap_chunkPairs (by rw [h.length_padGroups]; omega)]
    conv_rhs => rw [← List.map_snd_zip hlength.ge, List.flatMap_map]
  constructor
  · simp only [List.length_map, allocationRound, hlength]
  · rw [← List.flatMap_def, flatMap_chunkPairs (by rw [h.length_padGroups]; omega),
      h.flatten_padGroups]
  · have hdepth := h.depth
    have hclog := Merkle.clog_length_levelUp (pair sha256) hwide
    simp only [allocationRound_eq]
    omega
  · intro x hx i hi
    simp only [allocationRound, List.zip_map, List.mem_map] at hx
    obtain ⟨⟨⟨a, b⟩, g, g'⟩, hpair, rfl⟩ := hx
    obtain ⟨-, hproofs⟩ := @getElem?_pairProofs s.proofs i _ (hmembers ▸ List.nodup_range)
    obtain ⟨hleft, hright⟩ := mem_zip_chunkPairs hpair
    rcases List.mem_append.mp hi with hi | hi
    · obtain ⟨leaf, proof, hleaf, hproof, hlen, hfold⟩ := h.folds _ (h.mem_zip_of_mem hi hleft) i hi
      refine ⟨leaf, proof ++ [b], hleaf, ?_, by simp [hlen], ?_⟩
      · rw [(hproofs _ hpair).1 hi, hproof]
        rfl
      · rw [List.foldl_append, hfold]
        rfl
    · obtain ⟨leaf, proof, hleaf, hproof, hlen, hfold⟩ :=
        h.folds _ (h.mem_zip_of_mem hi hright) i hi
      refine ⟨leaf, proof ++ [a], hleaf, ?_, by simp [hlen], ?_⟩
      · rw [(hproofs _ hpair).2 hi, hproof]
        rfl
      · rw [List.foldl_append, hfold]
        exact pair_comm b a

end

theorem allocationRounds_eq {rounds level : Nat} {leaves : List Hash}
    (hrounds : leaves.length ≤ rounds) :
    allocationRounds sha256 leaves = Merkle.top (fun _ => pair sha256) rounds level leaves := by
  induction rounds generalizing level leaves with
  | zero =>
    rw [List.length_eq_zero_iff.mp (Nat.le_zero.mp hrounds), allocationRounds]
    rfl
  | succ rounds ih =>
    have hup := Merkle.length_levelUp (pair sha256) leaves
    rw [allocationRounds, Merkle.top, allocationRound_eq]
    split
    · exact ih (by omega)
    · rfl

/-- The whole loop. -/
theorem Collected.proofRounds
    (hrounds : s.leaves.length ≤ rounds) (h : Collected sha256 leaves k s) :
    ∃ s' k', proofRounds sha256 s = .ok s' ∧ s'.leaves = allocationRounds sha256 s.leaves ∧
      s'.leaves.length ≤ 1 ∧ Collected sha256 leaves k' s' := by
  induction rounds generalizing k s with
  | zero =>
    rw [Pon.proofRounds, if_neg (by omega), allocationRounds, if_neg (by omega)]
    exact ⟨s, k, rfl, rfl, by omega, h⟩
  | succ rounds ih =>
    rw [Pon.proofRounds, allocationRounds]
    split
    · next hwide =>
      obtain ⟨next, hnext, hleaves, hcollected⟩ := h.proofRound hwide
      have hup := Merkle.length_levelUp (pair sha256) s.leaves
      have hlength : next.leaves.length ≤ rounds := by
        rw [hleaves, allocationRound_eq]
        omega
      rw [← hleaves]
      split
      · next next' hnext' =>
        rw [hnext, Except.ok.injEq] at hnext'
        exact hnext' ▸ ih hlength hcollected
      · next e he => rw [hnext] at he; cases he
    · exact ⟨s, k, rfl, rfl, by omega, h⟩

theorem Collected.start (sha256 : Bytes → Hash) (leaves : List Hash) : Collected sha256 leaves 0
    ⟨leaves, (List.range leaves.length).map fun i => [i], leaves.map fun _ => []⟩ := by
  constructor
  · simp
  · rw [← List.flatMap_def, List.flatMap_singleton']
  · simp
  · intro x hx i hi
    obtain ⟨j, hj⟩ := List.mem_iff_getElem?.mp hx
    obtain ⟨hleaf, hgroup⟩ := List.getElem?_zip_eq_some.mp hj
    rw [List.getElem?_map, Option.map_eq_some_iff] at hgroup
    obtain ⟨j', hrange, hgroup⟩ := hgroup
    obtain ⟨hlt, hrange⟩ := List.getElem?_eq_some_iff.mp hrange
    rw [List.getElem_range] at hrange
    rw [← hgroup, List.mem_singleton, ← hrange] at hi
    subst hi
    exact ⟨x.1, [], hleaf, List.getElem?_map.trans (congrArg _ hleaf), rfl, rfl⟩

/-- The loop of the oracle ends at the root, with a proof of the tree's depth for every leaf. -/
theorem exists_allocationProofs {leaves : List Hash} (hne : leaves ≠ []) :
    ∃ (root : Hash) (proofs : List (List Hash)), allocationRoot sha256 leaves = .ok root ∧
      allocationRounds sha256 leaves = [root] ∧ allocationProofs sha256 leaves =
        .ok (root, proofs) ∧
      ∀ (i : Nat) (leaf : Hash), leaves[i]? = some leaf → ∃ proof : List Hash,
        proofs[i]? = some proof ∧
        proof.length = Nat.clog 2 leaves.length ∧ proof.foldl (pair sha256) leaf = root := by
  obtain ⟨s, k, hrounds, hleaves, -, h⟩ := (Collected.start sha256 leaves).proofRounds le_rfl
  have hone := @Merkle.length_top _ leaves _ 0 (fun _ => pair sha256) hne le_rfl
  obtain ⟨root, hroot⟩ := List.length_eq_one_iff.mp hone
  rw [← allocationRounds_eq le_rfl] at hroot
  simp only [hroot] at hleaves
  refine ⟨root, s.proofs, ?_, hroot, ?_, fun i leaf hleaf => ?_⟩
  · rw [allocationRoot, hroot]
    simp [require, hne, getOr, bind, Except.bind]
  · simp only [allocationProofs, bind_eq_ok, getOr_eq_ok, pure_eq_ok]
    exact ⟨s, hrounds, root, by rw [hleaves]; rfl, rfl⟩
  · -- one group is left, and every row is in it
    obtain ⟨group, hgroups⟩ := List.length_eq_one_iff.mp (h.width.trans (by rw [hleaves]; rfl))
    have hi : i ∈ group := by
      have hmembers := h.members
      rw [hgroups, List.flatten_singleton] at hmembers
      rw [hmembers, List.mem_range]
      exact (List.getElem?_eq_some_iff.mp hleaf).1
    obtain ⟨leaf', proof, hleaf', hproof, hlen, hfold⟩ := h.folds (root, group)
      (by rw [hleaves, hgroups]; simp) i hi
    obtain rfl := Option.some.inj (hleaf.symm.trans hleaf')
    have hdepth := h.depth
    rw [hleaves, List.length_singleton, Nat.clog_one_right] at hdepth
    exact ⟨proof, hproof, by omega, hfold⟩

end Loop

/-! ## Claims -/

section Claims
variable {sha256 : Bytes → Hash}

def pairMessage (p : Hash × Hash) : Bytes :=
  message "allocation-node" (if p.1 < p.2 then [p.1.bytes, p.2.bytes] else [p.2.bytes, p.1.bytes])

theorem pair_eq_sha256 (a b : Hash) : pair sha256 a b = sha256 (pairMessage (a, b)) := by
  unfold pair pairMessage hash
  split <;> rfl

def allocationMessages (sha256 : Bytes → Hash) (leaves : List Hash) : List Bytes :=
  (Merkle.topPairs (fun _ => pair sha256) leaves.length 0 leaves).map fun p => pairMessage p.2

def claimMessages (sha256 : Bytes → Hash) (leaf : Hash) (siblings : List Hash) : List Bytes :=
  (Merkle.climbPairs (pair sha256) Prod.mk leaf siblings).map pairMessage

/-- A sorted pair is told up to its order. -/
theorem pairMessage_inj (h : pairMessage p = pairMessage q) : p = q ∨ p = q.swap := by
  obtain ⟨a, b⟩ := p
  obtain ⟨c, d⟩ := q
  have hframed (x y z w : Hash) (P : Prop) [Decidable P] :
      Framed "allocation-node" (if P then [x.bytes, y.bytes] else [z.bytes, w.bytes]) := by
    split <;> exact framed_pair (by decide) _ _
  have hparts := (message_inj (hframed ..) (hframed ..) h).2
  have hext (x y z w : Hash) (h : [x.bytes, y.bytes] = [z.bytes, w.bytes]) : x = z ∧ y = w := by
    simp only [List.cons.injEq, and_true] at h
    exact ⟨Hash.ext_bytes h.1, Hash.ext_bytes h.2⟩
  simp only at hparts
  split at hparts <;> split at hparts
  · exact .inl (Prod.ext (hext _ _ _ _ hparts).1 (hext _ _ _ _ hparts).2)
  · exact .inr (Prod.ext (hext _ _ _ _ hparts).1 (hext _ _ _ _ hparts).2)
  · exact .inr (Prod.ext (hext _ _ _ _ hparts).2 (hext _ _ _ _ hparts).1)
  · exact .inl (Prod.ext (hext _ _ _ _ hparts).2 (hext _ _ _ _ hparts).1)

/-- The number of siblings is the depth of the tree. -/
theorem proofLength_eq (hpos : 0 < n) (hn : n < 2 ^ 64) :
    proofLength (.ofNat 64 n) = Nat.clog 2 n := by
  have htoNat : (BitVec.ofNat 64 n - 1).toNat = n - 1 := by
    rw [BitVec.toNat_sub_of_le, BitVec.toNat_ofNat, Nat.mod_eq_of_lt hn]
    · rfl
    · rw [BitVec.le_def, BitVec.toNat_ofNat, Nat.mod_eq_of_lt hn]
      exact hpos
  have hupper := @BitVec.toNat_lt_two_pow_sub_clz 64 (BitVec.ofNat 64 n - 1)
  rw [htoNat] at hupper
  unfold proofLength
  refine le_antisymm ?_ (Nat.clog_le_of_le_pow (by omega))
  by_cases hzero : BitVec.ofNat 64 n - 1 = 0#64
  · rw [hzero, BitVec.clz_eq_iff_eq_zero.mpr rfl]
    simp
  · have hlower := BitVec.two_pow_sub_clz_le_toNat_of_ne_zero (by decide) hzero
    rw [htoNat] at hlower
    have hpow : 2 ^ (64 - 1 - (BitVec.ofNat 64 n - 1).clz.toNat) < n := by omega
    have hlt := (Nat.lt_clog_iff_pow_lt one_lt_two).mpr hpow
    omega

theorem mem_of_claim
    (hroot : allocationRounds sha256 leaves = [root])
    (hlen : siblings.length = Nat.clog 2 leaves.length)
    (hfold : siblings.foldl (pair sha256) leaf = root) (hclean : Set.InjOn sha256
      {m | m ∈ allocationMessages sha256 leaves ∨ m ∈ claimMessages sha256 leaf siblings}) :
    leaf ∈ leaves := by
  rw [@allocationRounds_eq sha256 _ 0 _ le_rfl] at hroot
  refine Merkle.mem_of_climb (pair sha256) Prod.mk (fun _ _ => .inl rfl) le_rfl hroot hlen hfold
    fun p hp q hq heq => ?_
  rw [pair_eq_sha256, pair_eq_sha256] at heq
  exact pairMessage_inj (hclean (.inr (List.mem_map_of_mem hp))
    (.inl (List.mem_map.mpr ⟨q, hq, rfl⟩)) heq)

theorem leaf_eq {row : AllocationRow} (h : row.score < 2 ^ 64) : row.leaf sha256 =
    .ok (allocationLeaf sha256 row.contribution row.payee (.ofNat 64 row.score)) := by
  have hframed : Framed "allocation-leaf"
      [row.contribution.bytes, row.payee.bytes, Bytes.ofNat 8 row.score] := by
    refine ⟨by decide, ?_⟩
    simp [row.contribution.size_eq, row.payee.size_eq]
  simp only [AllocationRow.leaf, u64, bind_eq_ok, require_eq_ok, pure_eq_ok]
  refine ⟨_, ⟨(), h, rfl⟩, ?_⟩
  rw [H_of_framed hframed, allocationLeaf, BitVec.toNat_ofNat, Nat.mod_eq_of_lt h]

/-- The leaves of rows in the order of their contributions. -/
def rowLeaves (sha256 : Bytes → Hash) (rows : List AllocationRow) : List Hash :=
  (sortRows rows).map fun row =>
    allocationLeaf sha256 row.contribution row.payee (.ofNat 64 row.score)

/-- The proof stored for a contribution is one of a row with that contribution. -/
theorem exists_rootAndProofs (hne : rows ≠ []) (hcount : rows.length ≤ 256)
    (hscores : ∀ row ∈ rows, row.score < 2 ^ 64) :
    ∃ (root : Hash) (proofs : OrdMap Hash (List Hash)),
      allocationRootAndProofs sha256 rows = .ok (root, proofs) ∧
      allocationRoot sha256 (rowLeaves sha256 rows) = .ok root ∧
      ∀ row ∈ rows, ∃ (proof : List Hash) (row' : AllocationRow),
        proofs.get row.contribution = some proof ∧ row' ∈ rows ∧
        row'.contribution = row.contribution ∧
        proof.length = Nat.clog 2 rows.length ∧ proof.foldl (pair sha256)
          (allocationLeaf sha256 row'.contribution row'.payee (.ofNat 64 row'.score)) = root := by
  have hmem (row : AllocationRow) : row ∈ sortRows rows ↔ row ∈ rows :=
    (List.perm_insertionSort _ rows).mem_iff
  have hlength : (rowLeaves sha256 rows).length = rows.length := by
    simp [rowLeaves, sortRows]
  have hleavesNe : rowLeaves sha256 rows ≠ [] := by
    rwa [← List.length_pos_iff, hlength, List.length_pos_iff]
  obtain ⟨root, proofs, hroot, -, hproofs, hfold⟩ := @exists_allocationProofs sha256 _ hleavesNe
  refine ⟨root, .ofList (((sortRows rows).map (·.contribution)).zip proofs), ?_, hroot,
    fun row hrow => ?_⟩
  · have hleaves := mapM_eq_ok fun row hrow =>
      @leaf_eq sha256 row (hscores row ((hmem row).mp hrow))
    simp only [allocationRootAndProofs, bind_eq_ok, require_eq_ok, pure_eq_ok]
    exact ⟨(), ⟨hcount, hne⟩, _, hleaves, _, hproofs, rfl⟩
  · -- every row has a proof at its position
    have hat (i : Nat) (row : AllocationRow) (hi : (sortRows rows)[i]? = some row) :
        ∃ proof : List Hash, proofs[i]? = some proof ∧ proof.length = Nat.clog 2 rows.length ∧
          proof.foldl (pair sha256)
            (allocationLeaf sha256 row.contribution row.payee (.ofNat 64 row.score)) = root := by
      rw [← hlength]
      exact hfold i _ (by rw [rowLeaves, List.getElem?_map, hi]; rfl)
    obtain ⟨i, hi⟩ := List.mem_iff_getElem?.mp ((hmem row).mpr hrow)
    obtain ⟨proof, hproof, -⟩ := hat i row hi
    have hentry : (row.contribution, proof) ∈ ((sortRows rows).map (·.contribution)).zip proofs :=
      List.mem_of_getElem?
        (List.getElem?_zip_eq_some.mpr ⟨by rw [List.getElem?_map, hi]; rfl, hproof⟩)
    obtain ⟨stored, hget, hstored⟩ := OrdMap.exists_get_ofList hentry
    obtain ⟨j, hj⟩ := List.mem_iff_getElem?.mp hstored
    obtain ⟨hkey, hvalue⟩ := List.getElem?_zip_eq_some.mp hj
    rw [List.getElem?_map, Option.map_eq_some_iff] at hkey
    obtain ⟨row', hrow', hcontribution⟩ := hkey
    obtain ⟨proof', hproof', hlen, hend⟩ := hat j row' hrow'
    obtain rfl := Option.some.inj (hvalue.symm.trans hproof')
    exact ⟨stored, row', hget, (hmem row').mp (List.mem_of_getElem? hrow'), hcontribution,
      hlen, hend⟩

end Claims

/-- Allocation proofs are complete and sound at the length that a claim must have. -/
theorem allocation_proofs_complete_and_sound (sha256 : Bytes → Hash) :
    (∀ leaves : List Hash, leaves ≠ [] → leaves.length ≤ 255 →
      ∃ (root : Hash) (proofs : List (List Hash)),
      allocationRoot sha256 leaves = .ok root ∧ allocationProofs sha256 leaves =
        .ok (root, proofs) ∧
      (∀ (i : Nat) (leaf : Hash), leaves[i]? = some leaf → ∃ proof : List Hash,
        proofs[i]? = some proof ∧
        proof.length = proofLength (.ofNat 64 leaves.length) ∧
        proof.foldl (pair sha256) leaf = root) ∧
      ∀ (leaf : Hash) (siblings : List Hash),
        siblings.length = proofLength (.ofNat 64 leaves.length) →
        siblings.foldl (pair sha256) leaf = root →
        Set.InjOn sha256
          {m | m ∈ allocationMessages sha256 leaves ∨ m ∈ claimMessages sha256 leaf siblings} →
        leaf ∈ leaves) ∧
    ∀ rows : List AllocationRow, rows ≠ [] → rows.length ≤ 255 →
      (∀ row ∈ rows, row.score < 2 ^ 64) → ∃ (root : Hash) (proofs : OrdMap Hash (List Hash)),
        allocationRootAndProofs sha256 rows = .ok (root, proofs) ∧
        allocationRoot sha256 (rowLeaves sha256 rows) = .ok root ∧
        ∀ row ∈ rows, ∃ (proof : List Hash) (row' : AllocationRow),
          proofs.get row.contribution = some proof ∧ row' ∈ rows ∧
          row'.contribution = row.contribution ∧
          proof.length = proofLength (.ofNat 64 rows.length) ∧ proof.foldl (pair sha256)
            (allocationLeaf sha256 row'.contribution row'.payee (.ofNat 64 row'.score)) = root := by
  constructor
  · intro leaves hne hcount
    have hpos := List.length_pos_iff.mpr hne
    obtain ⟨root, proofs, hroot, hrounds, hproofs, hfold⟩ := @exists_allocationProofs sha256
      leaves hne
    rw [proofLength_eq hpos (by omega)]
    exact ⟨root, proofs, hroot, hproofs, hfold, fun leaf siblings hlen hend hclean =>
      mem_of_claim hrounds hlen hend hclean⟩
  · intro rows hne hcount hscores
    rw [proofLength_eq (List.length_pos_iff.mpr hne) (by omega)]
    exact exists_rootAndProofs hne (by omega) hscores

def sampleLeaves : List Hash := [.ofByte 1, .ofByte 2, .ofByte 3]

def sampleSiblings : List Hash := [.ofByte 2, pair Hash.checksum (.ofByte 3) (.ofByte 3)]

def sampleRows : List AllocationRow := [⟨.ofByte 2, .ofByte 5, 7⟩, ⟨.ofByte 1, .ofByte 4, 3⟩]

/-- Over three leaves two siblings prove the first one. -/
theorem sampleLeaves_claimed :
    (∃ root, allocationRoot Hash.checksum sampleLeaves = .ok root ∧
      sampleSiblings.length = proofLength 3 ∧
      sampleSiblings.foldl (pair Hash.checksum) (.ofByte 1) = root ∧ .ofByte 1 ∈ sampleLeaves) ∧
    ∃ root proofs, allocationRootAndProofs Hash.checksum sampleRows = .ok (root, proofs) := by
  obtain ⟨hleaves, hrows⟩ := allocation_proofs_complete_and_sound Hash.checksum
  constructor
  · obtain ⟨root, proofs, hroot, -, -, hsound⟩ := hleaves sampleLeaves (by decide) (by decide)
    have hlen : sampleSiblings.length = proofLength 3 := by decide +kernel
    have hend : (allocationRoot Hash.checksum sampleLeaves).toOption =
        some (sampleSiblings.foldl (pair Hash.checksum) (.ofByte 1)) := by decide +kernel
    rw [hroot] at hend
    have hend := (Option.some.inj hend).symm
    have hdigests : ((allocationMessages Hash.checksum sampleLeaves).map Hash.checksum).Nodup := by
      decide +kernel
    have hsame : ∀ m ∈ claimMessages Hash.checksum (.ofByte 1) sampleSiblings,
        m ∈ allocationMessages Hash.checksum sampleLeaves := by decide +kernel
    refine ⟨root, hroot, hlen, hend, hsound _ _ hlen hend fun m hm m' hm' => ?_⟩
    exact List.inj_on_of_nodup_map hdigests (hm.elim id (hsame m)) (hm'.elim id (hsame m'))
  · obtain ⟨root, proofs, h, -⟩ := hrows sampleRows (by decide) (by decide) (by decide)
    exact ⟨root, proofs, h⟩

end Trillionnium.Pon
