import Trillionnium.Lib.Merkle
import Trillionnium.Pon.Tagged

/-!
# Roots of ordered lists

`sequence_root` of `contract_wire.py`, the root of a block's transactions and of its receipts. A
leaf hashes its index with its bytes, so the leaves of a list are different. The last node of the
tree then determines them (`Lib.Merkle.top_inj_of_nodup`), although an odd level is padded with its
last node.
-/

namespace Trillionnium.Pon

open Lib

/-! ## Pairs of a level -/

section Pairs
variable {α : Type}

/-- An odd level is padded with its last node. -/
def padOdd (l : List α) : List α := if l.length % 2 = 1 then l ++ l.getLast?.toList else l

/-- `chunks_exact(2)`. -/
def chunkPairs : List α → List (α × α)
  | a :: b :: rest => (a, b) :: chunkPairs rest
  | _ => []

/-- `l[::2]`. -/
def everySecond : List α → List α
  | [] => []
  | [a] => [a]
  | a :: _ :: rest => a :: everySecond rest

theorem padOdd_cons_cons (a b : α) (l : List α) : padOdd (a :: b :: l) = a :: b :: padOdd l := by
  cases l with
  | nil => simp [padOdd]
  | cons c l =>
    have hparity : (a :: b :: c :: l).length % 2 = (c :: l).length % 2 := by
      rw [List.length_cons, List.length_cons, Nat.add_assoc, Nat.add_mod_right]
    rw [padOdd, padOdd, hparity, List.getLast?_cons_cons, List.getLast?_cons_cons]
    split <;> rfl

theorem chunkPairs_padOdd (l : List α) : chunkPairs (padOdd l) = Merkle.levelPairs l := by
  induction l using Merkle.levelPairs.induct with
  | case1 => rfl
  | case2 a => rfl
  | case3 a b rest ih => rw [padOdd_cons_cons, chunkPairs, ih, Merkle.levelPairs]

theorem zip_everySecond (l : List α) : (everySecond l).zip (everySecond l.tail) = chunkPairs l := by
  induction l using everySecond.induct with
  | case1 => rfl
  | case2 a => rfl
  | case3 a b rest ih =>
    cases rest with
    | nil => rfl
    | cons c rest => simpa [everySecond, chunkPairs] using ih

end Pairs

/-! ## `sequence_root` -/

def u64 (n : Nat) : Except Raised Bytes := do
  require (n < 2 ^ 64) (.valueError "u64 range")
  return Bytes.ofNat 8 n

section
variable (sha256 : Bytes → Hash) (tag : String)

def sequenceLeaf (item : Bytes × Nat) : Except Raised Hash := do
  H sha256 (tag ++ "-leaf") [← u64 item.2, item.1]

def sequenceRound (leaves : List Hash) : Except Raised (List Hash) :=
  ((everySecond (padOdd leaves)).zip (everySecond (padOdd leaves).tail)).mapM fun pair =>
    H sha256 (tag ++ "-node") [pair.1.bytes, pair.2.bytes]

theorem length_sequenceRound
    (h : sequenceRound sha256 tag leaves = .ok next) : next.length = (leaves.length + 1) / 2 := by
  have hlength := (forall₂_of_mapM h).length_eq
  rw [zip_everySecond, chunkPairs_padOdd] at hlength
  rw [← hlength, ← Merkle.length_levelUp (fun a _ => a) leaves, Merkle.levelUp_eq_map,
    List.length_map]

/-- `while len(leaves)>1`. -/
def sequenceRounds (leaves : List Hash) : Except Raised (List Hash) :=
  if 1 < leaves.length then
    match _hround : sequenceRound sha256 tag leaves with
    | .ok next => sequenceRounds next
    | .error e => .error e
  else .ok leaves
termination_by leaves.length
decreasing_by
  rw [length_sequenceRound sha256 tag _hround]
  omega

def sequenceTop (leaves : List Hash) : Except Raised Hash :=
  if leaves = [] then H sha256 (tag ++ "-empty") [] else do
    getOr (← sequenceRounds sha256 tag leaves).head? .indexError

def sequenceRoot (items : List Bytes) : Except Raised Hash := do
  sequenceTop sha256 tag (← items.zipIdx.mapM (sequenceLeaf sha256 tag))

/-! ## The tree -/

def leafMessage (item : Bytes × Nat) : Bytes :=
  message (tag ++ "-leaf") [Bytes.ofNat 8 item.2, item.1]

def sequenceNode (a b : Hash) : Hash := hash sha256 (tag ++ "-node") [a.bytes, b.bytes]

def sequenceLeaves (items : List Bytes) : List Hash :=
  items.zipIdx.map fun item => sha256 (leafMessage tag item)

def sequencePairs (items : List Bytes) : List (Hash × Hash) :=
  (Merkle.topPairs (fun _ => sequenceNode sha256 tag) items.length 0
    (sequenceLeaves sha256 tag items)).map Prod.snd

/-- The messages that `sequence_root` hashes. -/
def sequenceMessages (items : List Bytes) : List Bytes :=
  (if items = [] then [message (tag ++ "-empty") []] else []) ++
    (items.zipIdx.map (leafMessage tag) ++
      (sequencePairs sha256 tag items).map fun p => message (tag ++ "-node") [p.1.bytes, p.2.bytes])

end

section
variable {sha256 : Bytes → Hash} {tag : String} {items : List Bytes} {root : Hash}

theorem length_sequenceLeaves : (sequenceLeaves sha256 tag items).length = items.length := by
  simp [sequenceLeaves]

theorem sequenceLeaf_eq_ok :
    sequenceLeaf sha256 tag item = .ok h ↔ item.2 < 2 ^ 64 ∧
      Framed (tag ++ "-leaf") [Bytes.ofNat 8 item.2, item.1] ∧
      sha256 (leafMessage tag item) = h := by
  simp only [sequenceLeaf, u64, bind_eq_ok, require_eq_ok, pure_eq_ok, H_eq_ok]
  constructor
  · rintro ⟨_, ⟨_, hlt, rfl⟩, hframed, heq⟩
    exact ⟨hlt, hframed, heq⟩
  · rintro ⟨hlt, hframed, heq⟩
    exact ⟨_, ⟨(), hlt, rfl⟩, hframed, heq⟩

theorem sequenceRounds_eq (htag : (Bytes.ofString (tag ++ "-node")).length < 256 ^ 2)
    (hrounds : leaves.length ≤ rounds) :
    sequenceRounds sha256 tag leaves =
      .ok (Merkle.top (fun _ => sequenceNode sha256 tag) rounds level leaves) := by
  induction rounds generalizing level leaves with
  | zero =>
    rw [List.length_eq_zero_iff.mp (Nat.le_zero.mp hrounds), sequenceRounds]
    rfl
  | succ rounds ih =>
    have hround : sequenceRound sha256 tag leaves =
        .ok (Merkle.levelUp (sequenceNode sha256 tag) leaves) := by
      rw [sequenceRound, zip_everySecond, chunkPairs_padOdd, Merkle.levelUp_eq_map]
      exact mapM_eq_ok fun p _ => H_of_framed (framed_pair htag p.1 p.2)
    have hup := Merkle.length_levelUp (sequenceNode sha256 tag) leaves
    rw [sequenceRounds, Merkle.top]
    split
    · split
      · next next hnext =>
        rw [hround, Except.ok.injEq] at hnext
        rw [← hnext]
        exact ih (by omega)
      · next e he => rw [hround] at he; cases he
    · rfl

/-- A root is that of the empty list, or the last node above the leaves. -/
theorem sequenceRoot_eq_ok (h : sequenceRoot sha256 tag items = .ok root) :
    (∀ item ∈ items.zipIdx, item.2 < 2 ^ 64 ∧
      Framed (tag ++ "-leaf") [Bytes.ofNat 8 item.2, item.1]) ∧
    (items = [] ∧ Framed (tag ++ "-empty") [] ∧ root = hash sha256 (tag ++ "-empty") [] ∨
      items ≠ [] ∧ (Bytes.ofString (tag ++ "-node")).length < 256 ^ 2 ∧
        Merkle.top (fun _ => sequenceNode sha256 tag) items.length 0
          (sequenceLeaves sha256 tag items) = [root]) := by
  simp only [sequenceRoot, bind_eq_ok] at h
  obtain ⟨leaves, hleaves, htop⟩ := h
  have hframed : ∀ item ∈ items.zipIdx, item.2 < 2 ^ 64 ∧
      Framed (tag ++ "-leaf") [Bytes.ofNat 8 item.2, item.1] := by
    intro item hitem
    obtain ⟨leaf, hleaf⟩ := exists_mapM_eq_ok.mp ⟨leaves, hleaves⟩ item hitem
    obtain ⟨hlt, hframed, -⟩ := sequenceLeaf_eq_ok.mp hleaf
    exact ⟨hlt, hframed⟩
  obtain rfl : leaves = sequenceLeaves sha256 tag items :=
    map_of_mapM hleaves fun item _ leaf hleaf => (sequenceLeaf_eq_ok.mp hleaf).2.2
  refine ⟨hframed, ?_⟩
  unfold sequenceTop at htop
  split at htop
  · next hempty =>
    rw [← List.length_eq_zero_iff, length_sequenceLeaves, List.length_eq_zero_iff] at hempty
    exact .inl ⟨hempty, (H_eq_ok.mp htop).1, (H_eq_ok.mp htop).2.symm⟩
  · next hne =>
    rw [← List.length_eq_zero_iff, length_sequenceLeaves, List.length_eq_zero_iff] at hne
    obtain ⟨first, rest, rfl⟩ := List.exists_cons_of_ne_nil hne
    have htag : (Bytes.ofString (tag ++ "-node")).length < 256 ^ 2 := by
      have hleaf := (hframed (first, 0) (by simp)).2.1
      rw [Bytes.ofString_append, List.length_append] at hleaf ⊢
      exact hleaf
    simp only [bind_eq_ok, getOr_eq_ok] at htop
    obtain ⟨last, hlast, hroot⟩ := htop
    rw [sequenceRounds_eq htag length_sequenceLeaves.le, Except.ok.injEq] at hlast
    have hone := @Merkle.length_top _ (sequenceLeaves sha256 tag (first :: rest)) _ 0
      (fun _ => sequenceNode sha256 tag) (by simp [sequenceLeaves]) length_sequenceLeaves.le
    obtain ⟨only, honly⟩ := List.length_eq_one_iff.mp hone
    refine .inr ⟨hne, htag, ?_⟩
    rw [honly] at hlast ⊢
    rw [← hlast] at hroot
    rw [Option.some.inj hroot]

/-- The items of a list that are hashed under the leaf tag. -/
def SequenceItem (tag : String) (messages : Set Bytes) (item : Bytes × Nat) : Prop :=
  (item.2 < 2 ^ 64 ∧ Framed (tag ++ "-leaf") [Bytes.ofNat 8 item.2, item.1]) ∧
    leafMessage tag item ∈ messages

section
variable {messages : Set Bytes} (hclean : Set.InjOn sha256 messages)
include hclean

theorem injOn_leaf :
    Set.InjOn (fun item => sha256 (leafMessage tag item))
      {item | SequenceItem tag messages item} := by
  rintro ⟨b, i⟩ ⟨⟨hi, hframed⟩, hm⟩ ⟨b', i'⟩ ⟨⟨hi', hframed'⟩, hm'⟩ heq
  obtain ⟨-, hparts⟩ := hash_inj hclean hframed hframed' hm hm' heq
  simp only [List.cons.injEq, and_true] at hparts hi hi'
  obtain ⟨hindex, rfl⟩ := hparts
  rw [← Bytes.toNat_ofNat (w := 8) hi, hindex, Bytes.toNat_ofNat (w := 8) hi']

theorem nodup_sequenceLeaves (hitems : ∀ item ∈ items.zipIdx, SequenceItem tag messages item) :
    (sequenceLeaves sha256 tag items).Nodup := by
  have hindices : (items.zipIdx.map Prod.snd).Nodup := by
    rw [List.zipIdx_map_snd]
    exact List.nodup_range'
  exact (List.Nodup.of_map _ hindices).map_on fun item h item' h' =>
    injOn_leaf hclean (hitems item h) (hitems item' h')

theorem injOn_sequenceNode (htag : (Bytes.ofString (tag ++ "-node")).length < 256 ^ 2) :
    Set.InjOn (fun p : Hash × Hash => sequenceNode sha256 tag p.1 p.2)
      {p | message (tag ++ "-node") [p.1.bytes, p.2.bytes] ∈ messages} := by
  rintro ⟨a, b⟩ hm ⟨a', b'⟩ hm' heq
  obtain ⟨-, hparts⟩ := hash_inj hclean (framed_pair htag a b) (framed_pair htag a' b') hm hm' heq
  simp only [List.cons.injEq, and_true] at hparts
  rw [Hash.ext_bytes hparts.1, Hash.ext_bytes hparts.2]

theorem leaf_ne_node (htag : (Bytes.ofString (tag ++ "-node")).length < 256 ^ 2)
    (hitem : SequenceItem tag messages item)
    (hm : message (tag ++ "-node") [a.bytes, b.bytes] ∈ messages) :
    sha256 (leafMessage tag item) ≠ sequenceNode sha256 tag a b := by
  intro heq
  have htags := (hash_inj hclean hitem.1.2 (framed_pair htag a b) hitem.2 hm heq).1
  simp [String.append_right_inj] at htags

/-- The root of a list is no hash under the tag of the empty list. -/
theorem root_ne_empty (hframed : Framed (tag ++ "-empty") [])
    (htag : (Bytes.ofString (tag ++ "-node")).length < 256 ^ 2)
    (hempty : message (tag ++ "-empty") [] ∈ messages)
    (hitems : ∀ item ∈ items.zipIdx, SequenceItem tag messages item)
    (hpairs : ∀ p ∈ sequencePairs sha256 tag items,
      message (tag ++ "-node") [p.1.bytes, p.2.bytes] ∈ messages)
    (htop : Merkle.top (fun _ => sequenceNode sha256 tag) items.length 0
      (sequenceLeaves sha256 tag items) = [root]) : root ≠ hash sha256 (tag ++ "-empty") [] := by
  intro heq
  have hmem : root ∈ Merkle.top (fun _ => sequenceNode sha256 tag) items.length 0
    (sequenceLeaves sha256 tag items) := by rw [htop]; exact List.mem_singleton_self root
  rcases Merkle.mem_top _ hmem with hleaf | ⟨p, hp, hnode⟩
  · obtain ⟨item, hitem, hleaf⟩ := List.mem_map.mp hleaf
    obtain ⟨⟨-, hitemFramed⟩, hm⟩ := hitems item hitem
    have htags := (hash_inj hclean hitemFramed hframed hm hempty (hleaf.trans heq)).1
    simp [String.append_right_inj] at htags
  · have hm := hpairs p.2 (List.mem_map_of_mem hp)
    have htags := (hash_inj hclean (framed_pair htag p.2.1 p.2.2) hframed hm hempty
      (hnode.symm.trans heq)).1
    simp [String.append_right_inj] at htags

end

/-- What is hashed for a list with a root. -/
theorem sequenceMessages_covers (h : sequenceRoot sha256 tag items = .ok root)
    (hmessages : ∀ m ∈ sequenceMessages sha256 tag items, m ∈ messages) :
    (∀ item ∈ items.zipIdx, SequenceItem tag messages item) ∧
      (∀ p ∈ sequencePairs sha256 tag items, message (tag ++ "-node") [p.1.bytes, p.2.bytes] ∈
        messages) ∧
      (items = [] → message (tag ++ "-empty") [] ∈ messages) := by
  refine ⟨fun item hitem => ⟨(sequenceRoot_eq_ok h).1 item hitem, ?_⟩, fun p hp => ?_, ?_⟩
  · exact hmessages _ (List.mem_append_right _ (List.mem_append_left _ (List.mem_map_of_mem hitem)))
  · exact hmessages _ (List.mem_append_right _
      (List.mem_append_right _ (List.mem_map.mpr ⟨p, hp, rfl⟩)))
  · rintro rfl
    exact hmessages _ (by simp [sequenceMessages])

end

/-- Where the hash has no collisions among the messages of two lists, lists with one root are
equal. -/
theorem sequence_root_binds_list (sha256 : Bytes → Hash) (tag : String) (xs ys : List Bytes)
    (root : Hash) (hxs : sequenceRoot sha256 tag xs = .ok root)
    (hys : sequenceRoot sha256 tag ys = .ok root)
    (hclean : Set.InjOn sha256
      {m | m ∈ sequenceMessages sha256 tag xs ∨ m ∈ sequenceMessages sha256 tag ys}) : xs = ys := by
  obtain ⟨messages, hfree, hmessages, hmessages'⟩ : ∃ messages : Set Bytes,
      Set.InjOn sha256 messages ∧ (∀ m ∈ sequenceMessages sha256 tag xs, m ∈ messages) ∧
      ∀ m ∈ sequenceMessages sha256 tag ys, m ∈ messages :=
        ⟨_, hclean, fun _ => .inl, fun _ => .inr⟩
  obtain ⟨hitems, hpairs, hempty⟩ := sequenceMessages_covers hxs hmessages
  obtain ⟨hitems', hpairs', hempty'⟩ := sequenceMessages_covers hys hmessages'
  rcases (sequenceRoot_eq_ok hxs).2 with ⟨rfl, hframed, hroot⟩ | ⟨hne, htag, htop⟩
  · rcases (sequenceRoot_eq_ok hys).2 with ⟨rfl, -⟩ | ⟨-, htag, htop⟩
    · rfl
    · exact absurd hroot (root_ne_empty hfree hframed htag (hempty rfl) hitems' hpairs' htop)
  rcases (sequenceRoot_eq_ok hys).2 with ⟨rfl, hframed, hroot⟩ | ⟨hne', -, htop'⟩
  · exact absurd hroot (root_ne_empty hfree hframed htag (hempty' rfl) hitems hpairs htop)
  have hleaves : sequenceLeaves sha256 tag xs = sequenceLeaves sha256 tag ys := by
    refine Merkle.top_inj_of_nodup _ (injOn_sequenceNode hfree htag) ?_ ?_
      length_sequenceLeaves.le length_sequenceLeaves.le (fun p hp =>
        hpairs p.2 (List.mem_map_of_mem hp))
      (fun p hp => hpairs' p.2 (List.mem_map_of_mem hp)) (htop.trans htop'.symm)
        (nodup_sequenceLeaves hfree hitems)
      (nodup_sequenceLeaves hfree hitems') ?_
    · simpa [sequenceLeaves] using hne
    · simpa [sequenceLeaves] using hne'
    · -- leaves hash under a tag of their own
      intro leaf hleaf p hp
      rcases List.mem_append.mp hleaf with hleaf | hleaf
      · obtain ⟨item, hitem, rfl⟩ := List.mem_map.mp hleaf
        exact leaf_ne_node hfree htag (hitems item hitem) hp
      · obtain ⟨item, hitem, rfl⟩ := List.mem_map.mp hleaf
        exact leaf_ne_node hfree htag (hitems' item hitem) hp
  have hindexed := Merkle.eq_of_map_eq (injOn_leaf hfree) hitems hitems' hleaves
  rw [← List.zipIdx_map_fst 0 xs, hindexed, List.zipIdx_map_fst]

def sampleItems : List Bytes := [[1], [2, 3], []]

theorem sampleItems_bound : ∃ root, sequenceRoot Hash.checksum "receipts" sampleItems = .ok root ∧
    sampleItems = sampleItems := by
  obtain ⟨root, hroot⟩ : ∃ root, (sequenceRoot Hash.checksum "receipts" sampleItems).toOption =
      some root :=
    Option.isSome_iff_exists.mp (by decide +kernel)
  have hroot := toOption_eq_some.mp hroot
  have hdigests : ((sequenceMessages Hash.checksum "receipts" sampleItems).map
      Hash.checksum).Nodup := by
    decide +kernel
  refine ⟨root, hroot, sequence_root_binds_list _ _ _ _ root hroot hroot ?_⟩
  exact fun m hm m' hm' => List.inj_on_of_nodup_map hdigests (or_self_iff.mp hm)
    (or_self_iff.mp hm')

end Trillionnium.Pon
