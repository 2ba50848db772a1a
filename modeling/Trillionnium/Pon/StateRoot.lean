import Mathlib.Data.List.Dedup
import Mathlib.Data.List.TakeWhile
import Mathlib.Data.Nat.Bitwise
import Trillionnium.Lib.Sparse
import Trillionnium.Pon.Tagged

/-!
# The state root

The sparse Merkle root of a key/value map: `state_root` of `pon_wire.rs`, which splits the sorted
leaves bit by bit from the top, and `state_root` of `contract_wire.py`, which merges integer indices
level by level from the bottom. Both are the tree of height 256 of `Lib.Sparse` over the leaves.
-/

namespace Trillionnium.Pon

open Lib

section
variable (sha256 : Bytes → Hash)

/-! ## `pon_wire.rs` -/

/-- The hash of the key, and the hash of the entry. -/
def stateLeaf (e : Bytes × Bytes) : Hash × Hash :=
  (hash sha256 "state-key" [e.1], hash sha256 "state-leaf" [e.1, e.2])

def stateNode (a b : Hash) : Hash := hash sha256 "state-node" [a.bytes, b.bytes]

def stateEmpty : Hash := hash sha256 "state-empty" []

/-- The last entries of the array `empty`, one more than the number of turns. -/
def emptyTable : Nat → List Hash
  | 0 => [stateEmpty sha256]
  | turns + 1 =>
    match emptyTable turns with
    | [] => []
    | e :: rest => stateNode sha256 e e :: e :: rest

/-- The bit of a key at a depth is clear. -/
def bitClear (depth : Nat) (key : Hash) : Bool :=
  key.bytes.getD (depth / 8) 0 &&& (128 >>> UInt8.ofNat (depth % 8)) == 0

/-- The inner function `root` with the number of levels below its depth. The slices are those at the
partition point. -/
def subRoot (table : List Hash) : Nat → List (Hash × Hash) → Hash
  | 0, [] => table.getD 256 .zero
  | 0, x :: _ => x.2
  | levels + 1, xs =>
    if xs = [] then table.getD (255 - levels) .zero
    else stateNode sha256 (subRoot table levels (xs.takeWhile fun x => bitClear (255 - levels) x.1))
      (subRoot table levels (xs.dropWhile fun x => bitClear (255 - levels) x.1))

def checkedLeaf (e : Bytes × Bytes) : Except WireError (Hash × Hash) := do
  require (e.1.length ≤ 160 ∧ e.2.length ≤ 4096) .limit
  return stateLeaf sha256 e

def sortLeaves (leaves : List (Hash × Hash)) : List (Hash × Hash) :=
  leaves.insertionSort fun x y => x.1 ≤ y.1

/-- No two neighbours have one key. -/
def NeighboursDiffer (leaves : List (Hash × Hash)) : Prop :=
  ∀ p ∈ leaves.zip leaves.tail, p.1.1 ≠ p.2.1

instance {leaves : List (Hash × Hash)} : Decidable (NeighboursDiffer leaves) :=
  inferInstanceAs (Decidable (∀ p ∈ _, _))

def stateRoot (values : OrdMap Bytes Bytes) : Except WireError Hash := do
  require (values.size ≤ 65536) .limit
  let leaves ← values.entries.mapM (checkedLeaf sha256)
  require (NeighboursDiffer (sortLeaves leaves)) .keyCollision
  return subRoot sha256 (emptyTable sha256 256) 256 (sortLeaves leaves)

/-! ## `contract_wire.py` -/

/-- `int.from_bytes(h,'big')`. -/
def Hash.index (h : Hash) : Nat := Bytes.toNatBE h.bytes

def addNode (nodes : OrdMap Nat Hash) (e : Bytes × Bytes) : Except Raised (OrdMap Nat Hash) := do
  require (e.1.length ≤ 160 ∧ e.2.length ≤ 4096) (.valueError "LIMIT")
  let key ← H sha256 "state-key" [e.1]
  require (nodes.get key.index = none) (.valueError "collision")
  return nodes.insert key.index (← H sha256 "state-leaf" [e.1, e.2])

/-- One turn of the loop over levels. -/
def parents (s : OrdMap Nat Hash × Hash) : Except Raised (OrdMap Nat Hash × Hash) := do
  let parents ← (s.1.keys.map (· / 2)).dedup.mapM fun index => do
    let node ← H sha256 "state-node"
      [((s.1.get (2 * index)).getD s.2).bytes, ((s.1.get (2 * index + 1)).getD s.2).bytes]
    return (index, node)
  return (.ofList parents, ← H sha256 "state-node" [s.2.bytes, s.2.bytes])

def levels : Nat → OrdMap Nat Hash × Hash → Except Raised (OrdMap Nat Hash × Hash)
  | 0, s => .ok s
  | turns + 1, s => do levels turns (← parents sha256 s)

/-- `state_root` of the oracle, on the items of a dictionary in their order. -/
def oracleStateRoot (items : List (Bytes × Bytes)) : Except Raised Hash := do
  require (items.length ≤ 65536) (.valueError "LIMIT")
  let nodes ← items.foldlM (addNode sha256) ∅
  let empty ← H sha256 "state-empty" []
  let s ← levels sha256 256 (nodes, empty)
  return (s.1.get 0).getD s.2

end

/-! ## The tree -/

section Tree
variable {sha256 : Bytes → Hash} {xs : List (Hash × Hash)}

abbrev blankAt (sha256 : Bytes → Hash) (n : Nat) : Hash :=
  Sparse.blank (stateNode sha256) (stateEmpty sha256) n

theorem emptyTable_eq (turns : Nat) :
    emptyTable sha256 turns = ((List.range (turns + 1)).map (blankAt sha256)).reverse := by
  induction turns with
  | zero => rfl
  | succ turns ih =>
    rw [emptyTable, ih, List.range_succ, List.map_append, List.reverse_append]
    rw [List.range_succ (n := turns + 1), List.range_succ, List.map_append, List.map_append,
      List.reverse_append, List.reverse_append]
    rfl

theorem getD_emptyTable {n : Nat} (h : n ≤ 256) :
    (emptyTable sha256 256).getD (256 - n) .zero = blankAt sha256 n := by
  rw [emptyTable_eq, List.getD_eq_getElem?_getD, List.getElem?_reverse (by simp; omega)]
  simp only [List.length_map, List.length_range, List.getElem?_map]
  rw [List.getElem?_range (by omega)]
  simp only [Option.map_some, Option.getD_some]
  congr 1
  omega

theorem toNatBE_append (as bs : Bytes) :
    Bytes.toNatBE (as ++ bs) = Bytes.toNatBE as * 256 ^ bs.length + Bytes.toNatBE bs := by
  rw [Bytes.toNatBE, List.reverse_append, Bytes.toNat_append, List.length_reverse]
  simp only [Bytes.toNatBE]
  ring

theorem and_shift_eq_zero (hr : r < 8) :
    b &&& (128 >>> UInt8.ofNat r) = 0 ↔ b.toNat / 2 ^ (7 - r) % 2 = 0 := by
  have hmask : (128 >>> UInt8.ofNat r : UInt8).toNat = 2 ^ (7 - r) := by
    interval_cases r <;> rfl
  rw [← UInt8.toNat_inj, UInt8.toNat_and, hmask, Nat.and_two_pow, Nat.testBit_eq_decide_div_mod_eq]
  rcases Nat.mod_two_eq_zero_or_one (b.toNat / 2 ^ (7 - r)) with h | h <;> simp [h]

theorem bitClear_iff {levels : Nat} (h : levels < 256) (key : Hash) :
    bitClear (255 - levels) key = true ↔ key.index / 2 ^ levels % 2 = 0 := by
  obtain ⟨byte, shift, hshift, hlevels⟩ : ∃ byte shift, shift < 8 ∧ levels = 8 * byte + shift :=
    ⟨levels / 8, levels % 8, by omega, by omega⟩
  have hbyte : byte < 32 := by omega
  have hat : 31 - byte < key.bytes.length := by rw [key.size_eq]; omega
  -- the bytes before, at and behind the one with the bit
  have hindex : key.index = (Bytes.toNatBE (key.bytes.take (31 - byte)) * 256 +
      (key.bytes[31 - byte]).toNat) * 256 ^ byte + Bytes.toNatBE
        (key.bytes.drop (31 - byte + 1)) := by
    have hdrop : (key.bytes.drop (31 - byte + 1)).length = byte := by
      rw [List.length_drop, key.size_eq]
      omega
    conv_lhs => rw [Hash.index, ← List.take_append_drop (31 - byte) key.bytes,
      List.drop_eq_getElem_cons hat, toNatBE_append, Bytes.toNatBE_cons, List.length_cons, hdrop]
    rw [pow_succ]
    ring
  have hbehind : Bytes.toNatBE (key.bytes.drop (31 - byte + 1)) < 256 ^ byte := by
    have hlt := Bytes.toNatBE_lt (key.bytes.drop (31 - byte + 1))
    rwa [List.length_drop, key.size_eq, show 32 - (31 - byte + 1) = byte by omega] at hlt
  have hquotient : key.index / 2 ^ levels = (Bytes.toNatBE (key.bytes.take (31 - byte)) * 256 +
      (key.bytes[31 - byte]).toNat) / 2 ^ shift := by
    rw [hindex, hlevels, pow_add, pow_mul, show 2 ^ 8 = 256 from rfl, ← Nat.div_div_eq_div_mul,
      Nat.mul_comm _ (256 ^ byte), Nat.mul_add_div (Nat.pow_pos (by decide)),
      Nat.div_eq_of_lt hbehind, Nat.add_zero]
  have hhigh (n : Nat) : n * 256 = 2 * (n * 2 ^ (7 - shift)) * 2 ^ shift := by
    have hsplit : 128 = 2 ^ (7 - shift) * 2 ^ shift := by
      rw [← pow_add, show 7 - shift + shift = 7 by omega]
      rfl
    calc n * 256 = 2 * n * 128 := by ring
      _ = 2 * (n * 2 ^ (7 - shift)) * 2 ^ shift := by rw [hsplit]; ring
  rw [hquotient, bitClear, show (255 - levels) / 8 = 31 - byte by omega,
    show (255 - levels) % 8 = 7 - shift by omega, beq_iff_eq, and_shift_eq_zero (by omega),
    List.getD_eq_getElem?_getD, List.getElem?_eq_getElem hat, Option.getD_some,
    show 7 - (7 - shift) = shift by omega, Nat.add_comm, hhigh,
    Nat.add_mul_div_right _ _ (by positivity), Nat.add_mul_mod_self_left]

def leafAt (xs : List (Hash × Hash)) (i : Nat) : Option Hash :=
  (xs.find? fun x => x.1.index = i).map Prod.snd

theorem leafAt_cons (x : Hash × Hash) (xs : List (Hash × Hash)) (i : Nat) :
    leafAt (x :: xs) i = if x.1.index = i then some x.2 else leafAt xs i := by
  simp only [leafAt, List.find?_cons]
  by_cases h : x.1.index = i <;> simp [h]

theorem leafAt_append (xs ys : List (Hash × Hash)) (i : Nat) :
    leafAt (xs ++ ys) i = (leafAt xs i).or (leafAt ys i) := by
  rw [leafAt, List.find?_append, leafAt, leafAt]
  cases xs.find? fun x => x.1.index = i <;> rfl

theorem leafAt_eq_none {i : Nat} (h : ∀ x ∈ xs, x.1.index ≠ i) : leafAt xs i = none := by
  rw [leafAt, List.find?_eq_none.mpr fun x hx => by simpa using h x hx, Option.map_none]

/-- Leaves in the order of their indices. -/
abbrev Ascending (xs : List (Hash × Hash)) : Prop := xs.Pairwise fun x y => x.1.index < y.1.index

/-- The leaves before and behind the partition point. -/
abbrev clearLeaves (levels : Nat) (xs : List (Hash × Hash)) : List (Hash × Hash) :=
  xs.takeWhile fun x => bitClear (255 - levels) x.1

abbrev setLeaves (levels : Nat) (xs : List (Hash × Hash)) : List (Hash × Hash) :=
  xs.dropWhile fun x => bitClear (255 - levels) x.1

/-- The partition point of leaves below one node is where its right half begins. -/
theorem halves {levels j : Nat} (hlevels : levels < 256) (hs : Ascending xs)
    (hbelow : ∀ x ∈ xs, x.1.index / 2 ^ (levels + 1) = j) :
    (∀ x ∈ clearLeaves levels xs, x.1.index / 2 ^ levels = 2 * j) ∧
      ∀ x ∈ setLeaves levels xs, x.1.index / 2 ^ levels = 2 * j + 1 := by
  have hhalf (x : Hash × Hash) (hx : x ∈ xs) : x.1.index / 2 ^ levels / 2 = j := by
    rw [Nat.div_div_eq_div_mul, ← pow_succ]
    exact hbelow x hx
  constructor
  · intro x hx
    have hclear : bitClear (255 - levels) x.1 = true :=
      List.mem_takeWhile_imp (p := fun x : Hash × Hash => bitClear (255 - levels) x.1) hx
    rw [bitClear_iff hlevels] at hclear
    have := hhalf x ((List.takeWhile_sublist _).subset hx)
    omega
  · -- the first leaf of the rest has its bit set, and the others are greater
    intro x (hx : x ∈ xs.dropWhile _)
    have hsub := List.dropWhile_sublist (l := xs) fun x => bitClear (255 - levels) x.1
    have hhead := List.head_dropWhile_not (fun x : Hash × Hash => bitClear (255 - levels) x.1)
      (List.ne_nil_of_mem hx)
    generalize xs.dropWhile (fun x => bitClear (255 - levels) x.1) = rest at *
    obtain ⟨first, rest, rfl⟩ := List.exists_cons_of_ne_nil (List.ne_nil_of_mem hx)
    have hset : ¬ first.1.index / 2 ^ levels % 2 = 0 := by
      rw [← bitClear_iff hlevels]
      simpa using hhead
    have hle : first.1.index ≤ x.1.index := by
      rcases List.mem_cons.mp hx with rfl | hx
      · exact le_rfl
      · exact (List.rel_of_pairwise_cons (hs.sublist hsub) hx).le
    have hdiv := Nat.div_le_div_right (c := 2 ^ levels) hle
    have := hhalf first (hsub.subset List.mem_cons_self)
    have := hhalf x (hsub.subset hx)
    omega

variable (sha256) in
/-- The complete tree over leaves. -/
abbrev treeAt (leaf : Nat → Option Hash) (n j : Nat) : Hash :=
  Sparse.subtree (stateNode sha256) (stateEmpty sha256) leaf n j

/-- The leaves below the halves of a node. -/
theorem leafAt_halves {levels j : Nat} (hlevels : levels < 256)
    (hs : Ascending xs) (hbelow : ∀ x ∈ xs, x.1.index / 2 ^ (levels + 1) = j) :
    (∀ i, i / 2 ^ levels = 2 * j → leafAt (clearLeaves levels xs) i = leafAt xs i) ∧
      ∀ i, i / 2 ^ levels = 2 * j + 1 → leafAt (setLeaves levels xs) i = leafAt xs i := by
  obtain ⟨hleft, hright⟩ := halves hlevels hs hbelow
  have hsplit (i : Nat) := leafAt_append (clearLeaves levels xs) (setLeaves levels xs) i
  simp only [List.takeWhile_append_dropWhile] at hsplit
  constructor
  · intro i hi
    rw [hsplit, @leafAt_eq_none (setLeaves levels xs) i, Option.or_none]
    rintro x hx rfl
    have := hright x hx
    omega
  · intro i hi
    rw [hsplit, @leafAt_eq_none (clearLeaves levels xs) i, Option.none_or]
    rintro x hx rfl
    have := hleft x hx
    omega

theorem subRoot_nil {levels : Nat} (h : levels ≤ 256) :
    subRoot sha256 (emptyTable sha256 256) levels [] = blankAt sha256 levels := by
  have hblank := @getD_emptyTable sha256 _ h
  cases levels with
  | zero => exact hblank
  | succ levels => rwa [show 256 - (levels + 1) = 255 - levels by omega] at hblank

/-- The partition recursion is the tree. -/
theorem subRoot_eq {levels j : Nat} (hlevels : levels ≤ 256) (hs : Ascending xs)
    (hbelow : ∀ x ∈ xs, x.1.index / 2 ^ levels = j) :
    subRoot sha256 (emptyTable sha256 256) levels xs = treeAt sha256 (leafAt xs) levels j := by
  induction levels generalizing xs j with
  | zero =>
    cases xs with
    | nil => exact subRoot_nil hlevels
    | cons x xs =>
      obtain rfl : x.1.index = j := by simpa using hbelow x
      simp [subRoot, Sparse.subtree, leafAt]
  | succ levels ih =>
    by_cases hempty : xs = []
    · subst hempty
      rw [treeAt, Sparse.subtree_eq_blank _ _ fun i _ => leafAt_eq_none (by simp)]
      exact subRoot_nil hlevels
    · rw [subRoot, if_neg hempty]
      obtain ⟨hleft, hright⟩ := halves (by omega) hs hbelow
      obtain ⟨hleftLeaves, hrightLeaves⟩ := leafAt_halves (by omega) hs hbelow
      rw [ih (by omega) (hs.sublist (List.takeWhile_sublist _)) hleft,
        ih (by omega) (hs.sublist (List.dropWhile_sublist _)) hright, treeAt, treeAt,
        Sparse.subtree_congr _ _ hleftLeaves, Sparse.subtree_congr _ _ hrightLeaves, treeAt,
        Sparse.subtree]

/-! ## Leaves of a map -/

theorem leafAt_eq_some (hs : (xs.map fun x => x.1.index).Nodup) :
    leafAt xs i = some h ↔ ∃ x ∈ xs, x.1.index = i ∧ x.2 = h := by
  rw [leafAt, Option.map_eq_some_iff]
  constructor
  · rintro ⟨x, hx, rfl⟩
    exact ⟨x, List.mem_of_find?_eq_some hx, by simpa using List.find?_some hx, rfl⟩
  · rintro ⟨x, hx, rfl, rfl⟩
    obtain ⟨y, hy⟩ : ∃ y, xs.find? (fun y => y.1.index = x.1.index) = some y :=
      Option.isSome_iff_exists.mp (List.find?_isSome.mpr ⟨x, hx, by simp⟩)
    have hindex : y.1.index = x.1.index := by simpa using List.find?_some hy
    obtain rfl := List.inj_on_of_nodup_map hs (List.mem_of_find?_eq_some hy) hx hindex
    exact ⟨y, hy, rfl⟩

/-- Where no index occurs twice, the leaves do not depend on their order. -/
theorem leafAt_perm (h : xs.Perm ys)
    (hs : (xs.map fun x => x.1.index).Nodup) : leafAt xs = leafAt ys := by
  have hs' := (h.map _).nodup_iff.mp hs
  funext i
  refine Option.ext fun leaf => ?_
  rw [leafAt_eq_some hs, leafAt_eq_some hs']
  simp only [h.mem_iff]

theorem Hash.index_inj {a b : Hash} (h : a.index = b.index) : a = b := by
  refine Hash.ext_bytes ?_
  have hlength : a.bytes.reverse.length = b.bytes.reverse.length := by
    simp [a.size_eq, b.size_eq]
  rw [← List.reverse_inj, ← Bytes.ofNat_toNat a.bytes.reverse, ← Bytes.ofNat_toNat b.bytes.reverse,
    hlength]
  exact congrArg _ h

theorem Hash.lt_iff_index {a b : Hash} : a < b ↔ a.index < b.index :=
  Bytes.lt_iff_toNatBE_lt (a.size_eq.trans b.size_eq.symm)

/-- Sorted leaves whose neighbours differ ascend. -/
theorem ascending_of_neighboursDiffer (hs : xs.Pairwise fun x y => x.1 ≤ y.1)
    (h : NeighboursDiffer xs) : Ascending xs := by
  induction xs with
  | nil => exact .nil
  | cons x xs ih =>
    obtain ⟨hx, hs⟩ := List.pairwise_cons.mp hs
    cases xs with
    | nil => exact List.pairwise_singleton ..
    | cons y xs =>
      have hxs := ih hs fun p hp => h p (List.mem_cons_of_mem _ hp)
      have hne : x.1 ≠ y.1 := h (x, y) List.mem_cons_self
      have hxy : x.1.index < y.1.index :=
        Hash.lt_iff_index.mp (lt_of_le_of_ne (hx y List.mem_cons_self) hne)
      refine List.pairwise_cons.mpr ⟨fun z hz => ?_, hxs⟩
      rcases List.mem_cons.mp hz with rfl | hz
      · exact hxy
      · exact hxy.trans (List.rel_of_pairwise_cons hxs hz)

theorem neighboursDiffer_of_nodup (h : (xs.map Prod.fst).Nodup) : NeighboursDiffer xs := by
  induction xs with
  | nil => simp [NeighboursDiffer]
  | cons x xs ih =>
    obtain ⟨hx, h⟩ := List.nodup_cons.mp h
    cases xs with
    | nil => simp [NeighboursDiffer]
    | cons y xs =>
      intro p hp
      rcases List.mem_cons.mp hp with rfl | hp
      · exact fun heq => hx (List.mem_cons.mpr (.inl heq))
      · exact ih h p hp

theorem perm_sortLeaves (xs : List (Hash × Hash)) :
    (sortLeaves xs).Perm xs := List.perm_insertionSort ..

theorem neighboursDiffer_sortLeaves :
    NeighboursDiffer (sortLeaves xs) ↔ (xs.map fun x => x.1.index).Nodup := by
  constructor
  · intro h
    have hascending := ascending_of_neighboursDiffer (List.pairwise_insertionSort ..) h
    refine ((perm_sortLeaves xs).map _).nodup_iff.mp (List.pairwise_map.mpr ?_)
    exact hascending.imp fun hlt => hlt.ne
  · intro h
    refine neighboursDiffer_of_nodup (((perm_sortLeaves xs).map _).nodup_iff.mpr ?_)
    exact List.Nodup.of_map Hash.index (by rwa [List.map_map])

/-- Sorted leaves ascend where no index occurs twice. -/
theorem ascending_sortLeaves (h : (xs.map fun x => x.1.index).Nodup) : Ascending (sortLeaves xs) :=
  ascending_of_neighboursDiffer (List.pairwise_insertionSort ..) (neighboursDiffer_sortLeaves.mpr h)

theorem Hash.index_div (h : Hash) : h.index / 2 ^ 256 = 0 := by
  have hlt := Bytes.toNatBE_lt h.bytes
  rw [h.size_eq] at hlt
  exact Nat.div_eq_of_lt hlt

theorem subRoot_sortLeaves (h : (xs.map fun x => x.1.index).Nodup) :
    subRoot sha256 (emptyTable sha256 256) 256 (sortLeaves xs) =
      treeAt sha256 (leafAt xs) 256 0 := by
  rw [leafAt_perm (perm_sortLeaves xs).symm h]
  exact subRoot_eq le_rfl (ascending_sortLeaves h) fun x _ => x.1.index_div

/-- The limits on the number of entries and on their sizes. -/
def WithinLimits (entries : List (Bytes × Bytes)) : Prop :=
  entries.length ≤ 65536 ∧ ∀ e ∈ entries, e.1.length ≤ 160 ∧ e.2.length ≤ 4096

variable (sha256) in
abbrev indices (entries : List (Bytes × Bytes)) : List Nat :=
  (entries.map (stateLeaf sha256)).map fun x => x.1.index

theorem checkedLeaf_eq_ok {e : Bytes × Bytes} {leaf : Hash × Hash} :
    checkedLeaf sha256 e = .ok leaf ↔
    (e.1.length ≤ 160 ∧ e.2.length ≤ 4096) ∧ stateLeaf sha256 e = leaf := by
  simp only [checkedLeaf, bind_eq_ok, require_eq_ok, pure_eq_ok, exists_const]

variable {values : OrdMap Bytes Bytes} {root : Hash}

/-- The root is that of the tree, where the limits hold and no keys collide. -/
theorem stateRoot_eq_ok : stateRoot sha256 values = .ok root ↔
    WithinLimits values.entries ∧ (indices sha256 values.entries).Nodup ∧
      treeAt sha256 (leafAt (values.entries.map (stateLeaf sha256))) 256 0 = root := by
  simp only [stateRoot, bind_eq_ok, require_eq_ok, pure_eq_ok, neighboursDiffer_sortLeaves]
  constructor
  · rintro ⟨_, hsize, leaves, hleaves, _, hnodup, rfl⟩
    have hlimits : ∀ e ∈ values.entries, e.1.length ≤ 160 ∧ e.2.length ≤ 4096 := by
      intro e he
      obtain ⟨leaf, hleaf⟩ := exists_mapM_eq_ok.mp ⟨leaves, hleaves⟩ e he
      exact (checkedLeaf_eq_ok.mp hleaf).1
    obtain rfl : leaves = values.entries.map (stateLeaf sha256) :=
      map_of_mapM hleaves fun e _ leaf hleaf => (checkedLeaf_eq_ok.mp hleaf).2
    exact ⟨⟨hsize, hlimits⟩, hnodup, (subRoot_sortLeaves hnodup).symm⟩
  · rintro ⟨⟨hsize, hlimits⟩, hnodup, rfl⟩
    have hleaves := mapM_eq_ok fun e he => (@checkedLeaf_eq_ok sha256 e _).mpr ⟨hlimits e he, rfl⟩
    exact ⟨(), hsize, _, hleaves, (), hnodup, subRoot_sortLeaves hnodup⟩

/-! ## The oracle -/

theorem framed_key {e : Bytes × Bytes} (h : e.1.length ≤ 160 ∧ e.2.length ≤ 4096) :
    Framed "state-key" [e.1] ∧ Framed "state-leaf" [e.1, e.2] := by
  refine ⟨⟨by decide, ?_⟩, ⟨by decide, ?_⟩⟩
  · simp only [List.forall_mem_cons]
    exact ⟨by omega, by simp⟩
  · simp only [List.forall_mem_cons]
    exact ⟨by omega, by omega, by simp⟩

variable {nodes nodes' : OrdMap Nat Hash}

theorem addNode_eq_ok :
    addNode sha256 nodes e = .ok nodes' ↔ (e.1.length ≤ 160 ∧ e.2.length ≤ 4096) ∧
      nodes.get (stateLeaf sha256 e).1.index = none ∧
      nodes' = nodes.insert (stateLeaf sha256 e).1.index (stateLeaf sha256 e).2 := by
  simp only [addNode, bind_eq_ok, require_eq_ok, pure_eq_ok, H_eq_ok]
  constructor
  · rintro ⟨_, hlimit, key, ⟨-, rfl⟩, _, hnew, leaf, ⟨-, rfl⟩, rfl⟩
    exact ⟨hlimit, hnew, rfl⟩
  · rintro ⟨hlimit, hnew, rfl⟩
    obtain ⟨hkey, hleaf⟩ := framed_key hlimit
    exact ⟨(), hlimit, _, ⟨hkey, rfl⟩, (), hnew, _, ⟨hleaf, rfl⟩, rfl⟩

variable {items : List (Bytes × Bytes)}

/-- The dictionary of leaves is built exactly where the limits hold and no index occurs twice. -/
theorem foldlM_addNode : items.foldlM (addNode sha256) nodes = .ok nodes' ↔
      (∀ e ∈ items, e.1.length ≤ 160 ∧ e.2.length ≤ 4096) ∧ (indices sha256 items).Nodup ∧
      (∀ i ∈ indices sha256 items, nodes.get i = none) ∧
      ∀ i, nodes'.get i = (leafAt (items.map (stateLeaf sha256)) i).or (nodes.get i) := by
  induction items generalizing nodes with
  | nil =>
    have hnone (i : Nat) : leafAt [] i = none := rfl
    simp only [List.foldlM_nil, pure_eq_ok, List.map_nil, hnone, Option.none_or]
    exact ⟨fun h => by simp [h], fun h => OrdMap.ext_get fun i => (h.2.2.2 i).symm⟩
  | cons e items ih =>
    -- behind the entry the index is taken, and elsewhere nothing has changed
    have hafter (hnew : nodes.get (stateLeaf sha256 e).1.index = none) :
        ((∀ i ∈ indices sha256 items, (nodes.insert (stateLeaf sha256 e).1.index
            (stateLeaf sha256 e).2).get i = none) ↔
          (stateLeaf sha256 e).1.index ∉ indices sha256 items ∧
            ∀ i ∈ indices sha256 items, nodes.get i = none) := by
      constructor
      · intro h
        refine ⟨fun hmem => ?_, fun i hi => ?_⟩
        · have := h _ hmem
          simp at this
        · have hi := h i hi
          rw [OrdMap.get_insert] at hi
          split at hi
          · cases hi
          · exact hi
      · rintro ⟨hnot, h⟩ i hi
        rw [OrdMap.get_insert_ne (by rintro rfl; exact hnot hi), h i hi]
    have hget (hnot : (stateLeaf sha256 e).1.index ∉ indices sha256 items) (i : Nat) :
        (leafAt (items.map (stateLeaf sha256)) i).or
          ((nodes.insert (stateLeaf sha256 e).1.index (stateLeaf sha256 e).2).get i) =
        (leafAt ((e :: items).map (stateLeaf sha256)) i).or (nodes.get i) := by
      rw [List.map_cons, leafAt_cons, OrdMap.get_insert]
      split
      · next heq =>
        subst heq
        rw [leafAt_eq_none, Option.none_or, Option.some_or]
        exact fun x hx heq => hnot (List.mem_map.mpr ⟨x, hx, heq⟩)
      · rfl
    simp only [List.foldlM_cons, bind_eq_ok, addNode_eq_ok, ih, indices, List.map_cons,
      List.nodup_cons, List.forall_mem_cons]
    constructor
    · rintro ⟨_, ⟨hlimit, hnew, rfl⟩, hlimits, hnodup, hfree, heq⟩
      obtain ⟨hnot, hfree⟩ := (hafter hnew).mp hfree
      exact ⟨⟨hlimit, hlimits⟩, ⟨hnot, hnodup⟩, ⟨hnew, hfree⟩, fun i => (heq i).trans (hget hnot i)⟩
    · rintro ⟨⟨hlimit, hlimits⟩, ⟨hnot, hnodup⟩, ⟨hnew, hfree⟩, heq⟩
      exact ⟨_, ⟨hlimit, hnew, rfl⟩, hlimits, hnodup, (hafter hnew).mpr ⟨hnot, hfree⟩,
        fun i => (heq i).trans (hget hnot i).symm⟩

abbrev LevelOf (sha256 : Bytes → Hash) (leaf : Nat → Option Hash) (n : Nat)
    (nodes : OrdMap Nat Hash) :
    Prop := Sparse.Level (stateNode sha256) (stateEmpty sha256) leaf n nodes

variable {leaf : Nat → Option Hash}

/-- One turn forms the next level. -/
theorem parents_eq
    (h : LevelOf sha256 leaf n nodes) : ∃ nodes', parents sha256 (nodes, blankAt sha256 n) =
      .ok (nodes', blankAt sha256 (n + 1)) ∧ LevelOf sha256 leaf (n + 1) nodes' := by
  refine ⟨_, ?_, @Sparse.Level.up _ _ _ _ _ _ h (nodes.keys.map (· / 2)).dedup fun j => by
    rw [List.mem_dedup, List.mem_map]⟩
  have hparents := mapM_eq_ok (E := Raised) (l := (nodes.keys.map (· / 2)).dedup)
    (f := fun index => do
      let node ← H sha256 "state-node" [((nodes.get (2 * index)).getD (blankAt sha256 n)).bytes,
        ((nodes.get (2 * index + 1)).getD (blankAt sha256 n)).bytes]
      return (index, node))
    (g := fun index => (index, stateNode sha256 ((nodes.get (2 * index)).getD (blankAt sha256 n))
      ((nodes.get (2 * index + 1)).getD (blankAt sha256 n)))) fun index _ => by
        rw [H_of_framed (framed_pair (by decide) _ _)]
        rfl
  simp only [parents, bind_eq_ok, pure_eq_ok]
  exact ⟨_, hparents, _, H_of_framed (framed_pair (by decide) _ _), rfl⟩

theorem levels_eq {turns n : Nat} {nodes : OrdMap Nat Hash}
    (h : LevelOf sha256 leaf n nodes) : ∃ nodes', levels sha256 turns (nodes, blankAt sha256 n) =
      .ok (nodes', blankAt sha256 (n + turns)) ∧ LevelOf sha256 leaf (n + turns) nodes' := by
  induction turns generalizing n nodes with
  | zero => exact ⟨nodes, rfl, h⟩
  | succ turns ih =>
    obtain ⟨next, hnext, hlevel⟩ := parents_eq h
    obtain ⟨last, hlast, htop⟩ := ih hlevel
    rw [Nat.add_right_comm] at hlast htop
    refine ⟨last, ?_, htop⟩
    rw [levels, bind_of_ok hnext]
    exact hlast

/-- The leaves are the level at the bottom. -/
theorem level_zero (h : ∀ i, nodes.get i = leaf i) : LevelOf sha256 leaf 0 nodes := by
  constructor
  · rintro j ⟨i, hi, hj⟩
    obtain rfl : i = j := by simpa using hj
    obtain ⟨x, hx⟩ := Option.ne_none_iff_exists'.mp hi
    rw [h, Sparse.subtree, hx, Option.getD_some]
  · intro j hj
    rw [h]
    by_contra hne
    exact hj ⟨j, hne, by simp⟩

theorem exists_leaves (xs : List (Hash × Hash)) :
    ∃ nodes : OrdMap Nat Hash, ∀ i, nodes.get i = leafAt xs i := by
  induction xs with
  | nil => exact ⟨∅, fun _ => rfl⟩
  | cons x xs ih =>
    obtain ⟨nodes, h⟩ := ih
    exact ⟨nodes.insert x.1.index x.2, fun i => by rw [OrdMap.get_insert, leafAt_cons, h]⟩

theorem oracleStateRoot_eq_ok :
    oracleStateRoot sha256 items = .ok root ↔ WithinLimits items ∧ (indices sha256 items).Nodup ∧
      treeAt sha256 (leafAt (items.map (stateLeaf sha256))) 256 0 = root := by
  have hempty : H sha256 "state-empty" [] = .ok (stateEmpty sha256) :=
    H_of_framed ⟨by decide, by simp⟩
  have htop {nodes : OrdMap Nat Hash}
      (h : ∀ i, nodes.get i = leafAt (items.map (stateLeaf sha256)) i) :
      ∃ s, levels sha256 256 (nodes, stateEmpty sha256) = .ok s ∧
        (s.1.get 0).getD s.2 = treeAt sha256 (leafAt (items.map (stateLeaf sha256))) 256 0 := by
    obtain ⟨nodes', hlevels, hlevel⟩ := @levels_eq sha256 _ 256 _ _ (level_zero h)
    rw [Nat.zero_add] at hlevels hlevel
    exact ⟨_, hlevels, hlevel.getD 0⟩
  simp only [oracleStateRoot, bind_eq_ok, require_eq_ok, pure_eq_ok, hempty, Except.ok.injEq,
    exists_eq_left', foldlM_addNode, OrdMap.get_emptyCollection, Option.or_none]
  constructor
  · rintro ⟨_, hsize, nodes, ⟨hlimits, hnodup, -, hget⟩, s, hs, rfl⟩
    obtain ⟨s', hs', hroot⟩ := htop hget
    rw [hs, Except.ok.injEq] at hs'
    exact ⟨⟨hsize, hlimits⟩, hnodup, by rw [hs', hroot]⟩
  · rintro ⟨⟨hsize, hlimits⟩, hnodup, rfl⟩
    obtain ⟨nodes, hget⟩ := exists_leaves (items.map (stateLeaf sha256))
    obtain ⟨s, hs, hroot⟩ := htop hget
    exact ⟨(), hsize, nodes, ⟨hlimits, hnodup, fun _ _ => trivial, hget⟩, s, hs, hroot⟩

/-! ## Binding -/

/-- Keys that are told apart have different indices. -/
theorem nodup_indices (hlimits : WithinLimits values.entries)
    (hclean : Set.InjOn sha256 {m | ∃ e ∈ values.entries, m = message "state-key" [e.1]}) :
    (indices sha256 values.entries).Nodup := by
  have hkeys : (values.entries.map Prod.fst).Nodup := OrdMap.nodup_keys
  rw [indices, List.map_map]
  refine (List.Nodup.of_map _ hkeys).map_on fun e he e' he' heq => ?_
  have hparts := (hash_inj hclean (framed_key (hlimits.2 e he)).1 (framed_key (hlimits.2 e' he')).1
    ⟨e, he, rfl⟩ ⟨e', he', rfl⟩ (Hash.index_inj heq)).2
  exact List.inj_on_of_nodup_map hkeys he he' (List.cons.inj hparts).1

def nodeMessage (p : Hash × Hash) : Bytes := message "state-node" [p.1.bytes, p.2.bytes]

variable (sha256) in
/-- The messages of nodes that the inner function hashes. -/
def rootMessages : Nat → List (Hash × Hash) → List Bytes
  | 0, _ => []
  | levels + 1, xs =>
    if xs = [] then []
    else
      let left := xs.takeWhile fun x => bitClear (255 - levels) x.1
      let right := xs.dropWhile fun x => bitClear (255 - levels) x.1
      nodeMessage (subRoot sha256 (emptyTable sha256 256) levels left,
        subRoot sha256 (emptyTable sha256 256) levels right) ::
        (rootMessages levels left ++ rootMessages levels right)

variable (sha256) in
def stateMessages (values : OrdMap Bytes Bytes) : List Bytes :=
  values.entries.map (fun e => message "state-key" [e.1]) ++
    (values.entries.map (fun e => message "state-leaf" [e.1, e.2]) ++
      (message "state-empty" [] :: (emptyTable sha256 256).tail.map (fun e => nodeMessage (e, e)) ++
        rootMessages sha256 256 (sortLeaves (values.entries.map (stateLeaf sha256)))))

abbrev treePairs (sha256 : Bytes → Hash) (leaf : Nat → Option Hash) (n j : Nat) :
    Set (Hash × Hash) :=
  Sparse.subtreePairs (stateNode sha256) (stateEmpty sha256) leaf n j

/-- The pairs of the tree are hashed by the inner function or for its table. -/
theorem mem_rootMessages {levels j : Nat} (hlevels : levels ≤ 256) (hs : Ascending xs)
    (hbelow : ∀ x ∈ xs, x.1.index / 2 ^ levels = j)
    (hp : p ∈ treePairs sha256 (leafAt xs) levels j) :
    nodeMessage p ∈ rootMessages sha256 levels xs ∨
      ∃ k < 256, p = (blankAt sha256 k, blankAt sha256 k) := by
  induction levels generalizing xs j with
  | zero => cases hp
  | succ levels ih =>
    by_cases hempty : xs = []
    · subst hempty
      obtain ⟨k, hk, rfl⟩ := Sparse.blank_of_mem_subtreePairs _ _
        (fun i _ => leafAt_eq_none (by simp)) hp
      exact .inr ⟨k, by omega, rfl⟩
    · obtain ⟨hleft, hright⟩ := halves (by omega) hs hbelow
      obtain ⟨hleftLeaves, hrightLeaves⟩ := leafAt_halves (by omega) hs hbelow
      have hsl := hs.sublist (List.takeWhile_sublist fun x => bitClear (255 - levels) x.1)
      have hsr := hs.sublist (List.dropWhile_sublist fun x => bitClear (255 - levels) x.1)
      simp only [rootMessages, if_neg hempty, List.mem_cons, List.mem_append]
      rcases hp with rfl | hp | hp
      · left
        left
        rw [subRoot_eq (by omega) hsl hleft, subRoot_eq (by omega) hsr hright, treeAt, treeAt,
          Sparse.subtree_congr _ _ hleftLeaves, Sparse.subtree_congr _ _ hrightLeaves]
      · rw [← Sparse.subtreePairs_congr _ _ hleftLeaves] at hp
        exact (ih (by omega) hsl hleft hp).imp_left fun h => .inr (.inl h)
      · rw [← Sparse.subtreePairs_congr _ _ hrightLeaves] at hp
        exact (ih (by omega) hsr hright hp).imp_left fun h => .inr (.inr h)

theorem rootMessages_nil (levels : Nat) : rootMessages sha256 levels [] = [] := by
  cases levels <;> simp [rootMessages]

theorem tail_emptyTable (turns : Nat) :
    (emptyTable sha256 (turns + 1)).tail = emptyTable sha256 turns := by
  rw [emptyTable_eq, emptyTable_eq, List.range_succ (n := turns + 1), List.map_append,
    List.reverse_append]
  rfl

theorem mem_tail_emptyTable :
    e ∈ (emptyTable sha256 256).tail ↔ ∃ k < 256, blankAt sha256 k = e := by
  rw [tail_emptyTable, emptyTable_eq, List.mem_reverse, List.mem_map]
  simp only [List.mem_range]

section
variable {values : OrdMap Bytes Bytes} {root : Hash} {messages : Set Bytes}
  (h : stateRoot sha256 values = .ok root) (hmessages : ∀ m ∈ stateMessages sha256 values,
    m ∈ messages)
include h hmessages

theorem nodeMessage_mem
    (hp : p ∈ treePairs sha256 (leafAt (values.entries.map (stateLeaf sha256))) 256 0) :
    nodeMessage p ∈ messages := by
  obtain ⟨-, hnodup, -⟩ := stateRoot_eq_ok.mp h
  rw [leafAt_perm (perm_sortLeaves _).symm hnodup] at hp
  refine hmessages _ (List.mem_append_right _ (List.mem_append_right _ ?_))
  rcases mem_rootMessages le_rfl (ascending_sortLeaves hnodup) (fun x _ => x.1.index_div) hp with
    hroot | ⟨k, hk, rfl⟩
  · exact List.mem_append_right _ hroot
  · refine List.mem_append_left _ (List.mem_cons_of_mem _ ?_)
    exact List.mem_map.mpr ⟨_, mem_tail_emptyTable.mpr ⟨k, hk, rfl⟩, rfl⟩

omit hmessages in
theorem leafAt_of_mem (he : e ∈ values.entries) :
    leafAt (values.entries.map (stateLeaf sha256)) (stateLeaf sha256 e).1.index =
      some (stateLeaf sha256 e).2 := by
  obtain ⟨-, hnodup, -⟩ := stateRoot_eq_ok.mp h
  exact (leafAt_eq_some hnodup).mpr ⟨_, List.mem_map_of_mem he, rfl, rfl⟩

/-- What is at an index is the leaf of an entry. -/
theorem exists_of_leafAt {leaf : Hash}
    (hleaf : leafAt (values.entries.map (stateLeaf sha256)) i = some leaf) :
    ∃ e ∈ values.entries, Framed "state-leaf" [e.1, e.2] ∧
      message "state-leaf" [e.1, e.2] ∈ messages ∧ hash sha256 "state-leaf" [e.1, e.2] = leaf := by
  obtain ⟨⟨-, hlimits⟩, hnodup, -⟩ := stateRoot_eq_ok.mp h
  obtain ⟨x, hx, -, rfl⟩ := (leafAt_eq_some hnodup).mp hleaf
  obtain ⟨e, he, rfl⟩ := List.mem_map.mp hx
  refine ⟨e, he, (framed_key (hlimits e he)).2, hmessages _ ?_, rfl⟩
  exact List.mem_append_right _ (List.mem_append_left _ (List.mem_map.mpr ⟨e, he, rfl⟩))

theorem leafAt_ne_empty (hclean : Set.InjOn sha256 messages) (i : Nat) :
    leafAt (values.entries.map (stateLeaf sha256)) i ≠ some (stateEmpty sha256) := by
  intro hleaf
  obtain ⟨e, -, hframed, hm, heq⟩ := exists_of_leafAt h hmessages hleaf
  have hempty : message "state-empty" [] ∈ messages := by
    refine hmessages _ (List.mem_append_right _ (List.mem_append_right _ ?_))
    exact List.mem_append_left _ List.mem_cons_self
  have htags := (hash_inj hclean hframed ⟨by decide, by simp⟩ hm hempty heq).1
  exact absurd htags (by decide)

/-- An entry of a map is one of every map with the same leaves. -/
theorem mem_of_leafAt_eq (hclean : Set.InjOn sha256 messages) {values' : OrdMap Bytes Bytes}
    {root' : Hash} (h' : stateRoot sha256 values' = .ok root')
    (hmessages' : ∀ m ∈ stateMessages sha256 values', m ∈ messages)
    (heq : ∀ i, i / 2 ^ 256 = 0 → leafAt (values.entries.map (stateLeaf sha256)) i =
      leafAt (values'.entries.map (stateLeaf sha256)) i) {e : Bytes × Bytes}
    (he : e ∈ values.entries) : e ∈ values'.entries := by
  have hleaf := leafAt_of_mem h he
  rw [heq _ (Hash.index_div _)] at hleaf
  obtain ⟨e', he', hframed', hm', hhash⟩ := exists_of_leafAt h' hmessages' hleaf
  obtain ⟨⟨-, hlimits⟩, -, -⟩ := stateRoot_eq_ok.mp h
  have hm : message "state-leaf" [e.1, e.2] ∈ messages := hmessages _
    (List.mem_append_right _ (List.mem_append_left _ (List.mem_map.mpr ⟨e, he, rfl⟩)))
  have hparts := (hash_inj hclean hframed' (framed_key (hlimits e he)).2 hm' hm hhash).2
  simp only [List.cons.injEq, and_true] at hparts
  rwa [← Prod.ext hparts.1 hparts.2]

end

theorem injOn_nodes (hclean : Set.InjOn sha256 messages)
    (hp : nodeMessage p ∈ messages) (hq : nodeMessage q ∈ messages)
    (heq : stateNode sha256 p.1 p.2 = stateNode sha256 q.1 q.2) : p = q := by
  have hparts := (hash_inj hclean (framed_pair (by decide) p.1 p.2)
    (framed_pair (by decide) q.1 q.2) hp hq heq).2
  simp only [List.cons.injEq, and_true] at hparts
  exact Prod.ext (Hash.ext_bytes hparts.1) (Hash.ext_bytes hparts.2)

/-- Maps with one root have the same leaves. -/
theorem leafAt_eq_of_root (hclean : Set.InjOn sha256 messages)
    (h : stateRoot sha256 values = .ok root) (h' : stateRoot sha256 values' = .ok root)
    (hmessages : ∀ m ∈ stateMessages sha256 values, m ∈ messages)
    (hmessages' : ∀ m ∈ stateMessages sha256 values', m ∈ messages) (i : Nat)
    (hi : i / 2 ^ 256 = 0) :
    leafAt (values.entries.map (stateLeaf sha256)) i =
      leafAt (values'.entries.map (stateLeaf sha256)) i := by
  obtain ⟨-, -, hroot⟩ := stateRoot_eq_ok.mp h
  obtain ⟨-, -, hroot'⟩ := stateRoot_eq_ok.mp h'
  refine Sparse.subtree_inj _ _ (leafAt_ne_empty h hmessages hclean)
    (leafAt_ne_empty h' hmessages' hclean) (fun p hp q hq heq => ?_) (hroot.trans hroot'.symm) i hi
  exact injOn_nodes hclean (nodeMessage_mem h hmessages hp) (nodeMessage_mem h' hmessages' hq) heq

end Tree

/-- Both implementations compute the same root of a map, in whatever order its items come. They do
so for every map within the limits whose keys are told apart, and there maps with one root are
equal. -/
theorem state_root_agrees_and_binds (sha256 : Bytes → Hash) :
    (∀ (values : OrdMap Bytes Bytes) (items : List (Bytes × Bytes)), items.Perm values.entries →
      ∀ root, stateRoot sha256 values = .ok root ↔ oracleStateRoot sha256 items = .ok root) ∧
    (∀ values : OrdMap Bytes Bytes, WithinLimits values.entries →
      Set.InjOn sha256 {m | ∃ e ∈ values.entries, m = message "state-key" [e.1]} →
      ∃ root, stateRoot sha256 values = .ok root) ∧
    ∀ (values values' : OrdMap Bytes Bytes) (root : Hash), stateRoot sha256 values = .ok root →
      stateRoot sha256 values' = .ok root →
      Set.InjOn sha256 {m | m ∈ stateMessages sha256 values ∨ m ∈ stateMessages sha256 values'} →
      values = values' := by
  refine ⟨fun values items hperm root => ?_, fun values hlimits hclean => ?_,
    fun values values' root h h' hclean => ?_⟩
  · have hleaves := hperm.map (stateLeaf sha256)
    rw [stateRoot_eq_ok, oracleStateRoot_eq_ok, WithinLimits, WithinLimits, hperm.length_eq,
      (hleaves.map _).nodup_iff]
    simp only [hperm.mem_iff]
    refine and_congr_right fun _ => and_congr_right fun hnodup => ?_
    rw [leafAt_perm hleaves.symm hnodup]
  · exact ⟨_, stateRoot_eq_ok.mpr ⟨hlimits, nodup_indices hlimits hclean, rfl⟩⟩
  · have heq := leafAt_eq_of_root hclean h h' (fun _ => .inl) fun _ => .inr
    have hsub := fun e => @mem_of_leafAt_eq sha256 _ _ _ h (fun _ => .inl) hclean _ _ h'
      (fun _ => .inr) heq e
    have hsub' := fun e => @mem_of_leafAt_eq sha256 _ _ _ h' (fun _ => .inr) hclean _ _ h
      (fun _ => .inl) (fun i hi => (heq i hi).symm) e
    refine OrdMap.ext_get fun k => Option.ext fun v => ?_
    rw [← OrdMap.mem_entries, ← OrdMap.mem_entries]
    exact ⟨hsub (k, v), hsub' (k, v)⟩

/-- A stand-in: a short message as a number, and for a node one more than the larger of its
children. -/
def heightHash (m : Bytes) : Hash :=
  ⟨Bytes.ofNat 32 (if m.length < 64 then Bytes.toNatBE m
    else max (Bytes.toNat ((m.drop 26).take 32)) (Bytes.toNat ((m.drop 26).drop 36)) + 1),
    Bytes.length_ofNat ..⟩

abbrev hashNumber (h : Hash) : Nat := Bytes.toNat h.bytes

theorem hashNumber_node (hn : max (hashNumber a) (hashNumber b) = n)
    (hlt : n + 1 < 256 ^ 32) : hashNumber (heightHash (nodeMessage (a, b))) = n + 1 := by
  have hmessage : nodeMessage (a, b) = message "state-node" [] ++ Bytes.ofNat 4 32 ++
      (a.bytes ++ (Bytes.ofNat 4 32 ++ b.bytes)) := by
    simp [nodeMessage, message, Bytes.frames, a.size_eq, b.size_eq]
  have hstart : (message "state-node" [] ++ Bytes.ofNat 4 32).length = 26 := by decide
  have hlong : ¬ (nodeMessage (a, b)).length < 64 := by
    rw [hmessage, List.length_append, hstart]
    simp [a.size_eq, b.size_eq]
  have hchildren : (nodeMessage (a, b)).drop 26 = a.bytes ++ (Bytes.ofNat 4 32 ++ b.bytes) := by
    rw [hmessage, List.drop_left' hstart]
  have hsecond : (a.bytes ++ (Bytes.ofNat 4 32 ++ b.bytes)).drop 36 = b.bytes := by
    rw [← List.append_assoc]
    exact List.drop_left' (by simp [a.size_eq])
  simp only [hashNumber, heightHash, if_neg hlong, hchildren, List.take_left' a.size_eq, hsecond]
  rw [hn]
  exact Bytes.toNat_ofNat hlt

theorem hashNumber_blank (hn : n ≤ 256) :
    hashNumber (blankAt heightHash n) = hashNumber (stateEmpty heightHash) + n := by
  induction n with
  | zero => rfl
  | succ n ih =>
    have hempty : hashNumber (stateEmpty heightHash) + 257 < 256 ^ 32 := by decide +kernel
    have hmax := max_self (hashNumber (blankAt heightHash n))
    rw [← Nat.add_assoc, ← ih (by omega)]
    exact hashNumber_node hmax (by rw [ih (by omega)]; omega)

/-- Above a single leaf there is a node of every height. -/
theorem hashNumber_subRoot (hx : hashNumber (stateEmpty heightHash) ≤ hashNumber x.2)
    (hlt : hashNumber x.2 + 257 < 256 ^ 32) (hn : n ≤ 256) :
    hashNumber (subRoot heightHash (emptyTable heightHash 256) n [x]) = hashNumber x.2 + n ∧
    (rootMessages heightHash n [x]).map (fun m => hashNumber (heightHash m)) =
      (List.range' (hashNumber x.2 + 1) n).reverse := by
  induction n with
  | zero => exact ⟨rfl, rfl⟩
  | succ n ih =>
    obtain ⟨hroot, hnodes⟩ := ih (by omega)
    have hblank := hashNumber_blank (n := n) (by omega)
    rw [← subRoot_nil (by omega)] at hblank
    have hnext : (hashNumber x.2 + n + 1) :: (List.range' (hashNumber x.2 + 1) n).reverse =
        (List.range' (hashNumber x.2 + 1) (n + 1)).reverse := by
      rw [List.range'_1_concat, List.reverse_append, Nat.add_right_comm]
      rfl
    rw [← hnext, ← hnodes]
    by_cases hbit : bitClear (255 - n) x.1
    · have hnode := hashNumber_node (a := subRoot heightHash (emptyTable heightHash 256) n [x])
        (b := subRoot heightHash (emptyTable heightHash 256) n []) (n := hashNumber x.2 + n)
        (by omega) (by omega)
      simpa [subRoot, rootMessages, hbit, rootMessages_nil] using ⟨hnode, hnode⟩
    · have hnode := hashNumber_node (a := subRoot heightHash (emptyTable heightHash 256) n [])
        (b := subRoot heightHash (emptyTable heightHash 256) n [x]) (n := hashNumber x.2 + n)
        (by omega) (by omega)
      simpa [subRoot, rootMessages, hbit, rootMessages_nil] using ⟨hnode, hnode⟩

/-- Five numbers, three of them with a run of numbers above it, far from each other. -/
theorem nodup_runs (hk : e + 256 < k) (hk' : k < k') (hl : k' < l) (hl' : l + 255 < l') :
    ([k, k', l, l'] ++ (e :: (List.range' (e + 1) 256).reverse ++ ((l' + 255 + 1) ::
      ((List.range' (l + 1) 255).reverse ++ (List.range' (l' + 1) 255).reverse)))).Nodup := by
  have hrun : ∀ start n, (List.range' start n).Nodup := fun _ _ => List.nodup_range'
  simp only [List.nodup_append, List.nodup_cons, List.nodup_nil, List.nodup_reverse, hrun,
    List.mem_append, List.mem_cons, List.mem_reverse, List.mem_range'_1, List.not_mem_nil,
    or_false, not_false_eq_true, true_and, and_true]
  and_intros
  all_goals
    intros
    omega

def sampleValues : OrdMap Bytes Bytes := .ofList [([1], [7]), ([128], [8])]

/-- The leaves of the two entries. -/
def sampleLeaf : Bool → Hash × Hash
  | true => stateLeaf heightHash ([1], [7])
  | false => stateLeaf heightHash ([128], [8])

/-- The two entries part at the root. -/
theorem rootMessages_sample : rootMessages heightHash 256 [sampleLeaf true, sampleLeaf false] =
    nodeMessage (subRoot heightHash (emptyTable heightHash 256) 255 [sampleLeaf true],
      subRoot heightHash (emptyTable heightHash 256) 255 [sampleLeaf false]) ::
    (rootMessages heightHash 255 [sampleLeaf true] ++
      rootMessages heightHash 255 [sampleLeaf false]) := by
  have hbits : bitClear 0 (sampleLeaf true).1 = true ∧ bitClear 0 (sampleLeaf false).1 = false := by
    decide +kernel
  rw [rootMessages]
  simp [hbits]

/-- The stand-in tells the messages of the map apart. -/
theorem nodup_sample :
    ((stateMessages heightHash sampleValues).map fun m => hashNumber (heightHash m)).Nodup := by
  have hgaps : hashNumber (stateEmpty heightHash) + 256 < hashNumber (sampleLeaf true).1 ∧
      hashNumber (sampleLeaf true).1 < hashNumber (sampleLeaf false).1 ∧
      hashNumber (sampleLeaf false).1 < hashNumber (sampleLeaf true).2 ∧
      hashNumber (sampleLeaf true).2 + 255 < hashNumber (sampleLeaf false).2 ∧
      hashNumber (sampleLeaf false).2 + 257 < 256 ^ 32 := by
    decide +kernel
  have hsorted : sortLeaves [sampleLeaf true, sampleLeaf false] =
      [sampleLeaf true, sampleLeaf false] := by
    decide +kernel
  have hmessages : stateMessages heightHash sampleValues = [message "state-key" [[1]],
      message "state-key" [[128]], message "state-leaf" [[1], [7]],
      message "state-leaf" [[128], [8]]] ++ (message "state-empty" [] ::
        (emptyTable heightHash 256).tail.map (fun e => nodeMessage (e, e)) ++
        rootMessages heightHash 256 [sampleLeaf true, sampleLeaf false]) := by
    rw [← hsorted]
    rfl
  have htable : (emptyTable heightHash 256).tail.map
      (fun e => hashNumber (heightHash (nodeMessage (e, e)))) =
        (List.range' (hashNumber (stateEmpty heightHash) + 1) 256).reverse := by
    rw [tail_emptyTable, emptyTable_eq, List.map_reverse, List.map_map, List.range'_eq_map_range]
    refine congrArg _ (List.map_congr_left fun n hn => ?_)
    exact (hashNumber_blank (n := n + 1) (List.mem_range.mp hn)).trans (by omega)
  obtain ⟨hfirst, hfirst'⟩ :=
    hashNumber_subRoot (x := sampleLeaf true) (by omega) (by omega) (n := 255) (by omega)
  obtain ⟨hsecond, hsecond'⟩ :=
    hashNumber_subRoot (x := sampleLeaf false) (by omega) (by omega) (n := 255) (by omega)
  have hroot := hashNumber_node
    (a := subRoot heightHash (emptyTable heightHash 256) 255 [sampleLeaf true])
    (b := subRoot heightHash (emptyTable heightHash 256) 255 [sampleLeaf false])
    (n := hashNumber (sampleLeaf false).2 + 255) (by omega) (by omega)
  obtain ⟨hkey, hkeys, hleaf, hleaves, -⟩ := hgaps
  have hnodup := nodup_runs hkey hkeys hleaf hleaves
  rw [← hroot, ← hfirst', ← hsecond', ← htable] at hnodup
  rw [hmessages, rootMessages_sample]
  simp only [List.map_append, List.map_cons, List.map_nil, List.map_map]
  exact hnodup

/-- The root of a map of two entries is the same in both implementations, and is not that of the map
without entries. -/
theorem sample_state_root_binds : ∃ root, stateRoot heightHash sampleValues = .ok root ∧
    oracleStateRoot heightHash [([128], [8]), ([1], [7])] = .ok root ∧
    stateRoot heightHash ∅ ≠ .ok root := by
  obtain ⟨hagree, hexists, hbinds⟩ := state_root_agrees_and_binds heightHash
  have hclean : Set.InjOn heightHash {m | m ∈ stateMessages heightHash sampleValues} :=
    fun _ hm _ hm' heq => List.inj_on_of_nodup_map nodup_sample hm hm' (congrArg hashNumber heq)
  -- the map without entries hashes the table only
  have hempty : stateMessages heightHash ∅ = message "state-empty" [] ::
      (emptyTable heightHash 256).tail.map (fun e => nodeMessage (e, e)) ++
        rootMessages heightHash 256 [] := rfl
  obtain ⟨root, hroot⟩ := hexists sampleValues ⟨by decide +kernel, by decide +kernel⟩
    (hclean.mono (by
      rintro _ ⟨e, he, rfl⟩
      exact List.mem_append_left _ (List.mem_map_of_mem he)))
  refine ⟨root, hroot, (hagree sampleValues _ (.swap ..) root).mp hroot, fun hroot' => ?_⟩
  refine absurd (hbinds sampleValues ∅ root hroot hroot' (hclean.mono ?_)) (by decide +kernel)
  rintro m (hm | hm)
  · exact hm
  · rw [hempty, rootMessages_nil, List.append_nil] at hm
    exact List.mem_append_right _ (List.mem_append_right _ (List.mem_append_left _ hm))

end Trillionnium.Pon
