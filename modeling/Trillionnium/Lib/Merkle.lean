import Mathlib.Data.List.Nodup
import Mathlib.Data.Nat.Log
import Mathlib.Tactic.Linarith

/-!
# Merkle trees with a duplicated odd node

A level is paired from the left and an odd last node is paired with itself, until one node is
left, `top`. Its depth is the binary logarithm of the number of leaves, rounded up.

* `top_inj`: the last level determines the leaves of a tree of known width.
* `top_inj_of_nodup`: it determines different leaves, also their number, where leaves are no nodes.
* `walk_path`, `getElem?_of_walk`: a walk that knows its position reaches the last node along the
  siblings beside it, and one of that depth reaches it from the leaf at its position only.
* `mem_of_climb`: a walk that pairs in any order reaches it from a leaf only.

In each the siblings are arbitrary, and the pairing need only tell apart the pairs that are formed.
-/

namespace Lib.Merkle

variable {H : Type} (node : H → H → H) {l l' : List H} {rounds level position : Nat} {x : H}

def levelUp : List H → List H
  | [] => []
  | [a] => [node a a]
  | a :: b :: rest => node a b :: levelUp rest

theorem length_levelUp (l : List H) : (levelUp node l).length = (l.length + 1) / 2 := by
  induction l using levelUp.induct with
  | case1 => simp [levelUp]
  | case2 => simp [levelUp]
  | case3 a b rest ih => simp only [levelUp, List.length_cons, ih]; omega

def levelPairs : List H → List (H × H)
  | [] => []
  | [a] => [(a, a)]
  | a :: b :: rest => (a, b) :: levelPairs rest

theorem levelUp_eq_map (l : List H) :
    levelUp node l = (levelPairs l).map fun p => node p.1 p.2 := by
  induction l using levelUp.induct with
  | case1 => rfl
  | case2 => rfl
  | case3 a b rest ih => simp [levelUp, levelPairs, ih]

theorem mem_of_mem_levelPairs (h : p ∈ levelPairs l) : p.1 ∈ l ∧ p.2 ∈ l := by
  induction l using levelPairs.induct with
  | case1 => cases h
  | case2 a => simp [levelPairs] at h; simp [h]
  | case3 a b rest ih =>
    rcases List.mem_cons.mp h with rfl | h
    · simp
    · have := ih h
      exact ⟨by simp [this.1], by simp [this.2]⟩

/-! ## Positions -/

section Positions
variable {node : H → H → H}

/-- The node beside a position: to its right at an even one, where an odd last node stands beside
itself, and to its left at an odd one. -/
def sibling (l : List H) (position : Nat) (x : H) : H :=
  if position % 2 = 0 then l.getD (position + 1) x else l.getD (position - 1) x

/-- A node at a position and its sibling, in the order in which they are paired. -/
def stepPair (x : H) (position : Nat) (s : H) : H × H := if position % 2 = 0 then (x, s) else (s, x)

theorem getElem?_levelPairs (h : l[position]? = some x) :
    (levelPairs l)[position / 2]? = some (stepPair x position (sibling l position x)) := by
  induction l using levelPairs.induct generalizing position with
  | case1 => simp at h
  | case2 a =>
    obtain rfl : position = 0 := by
      by_contra hpos
      rw [List.getElem?_cons, if_neg hpos] at h
      simp at h
    simp only [List.getElem?_cons_zero, Option.some.injEq] at h
    subst h
    simp [levelPairs, stepPair, sibling]
  | case3 a b rest ih =>
    match position with
    | 0 =>
      simp only [List.getElem?_cons_zero, Option.some.injEq] at h
      subst h
      simp [levelPairs, stepPair, sibling]
    | 1 =>
      simp only [List.getElem?_cons_succ, List.getElem?_cons_zero, Option.some.injEq] at h
      subst h
      simp [levelPairs, stepPair, sibling]
    | position + 2 =>
      have hrest := @ih position (by simpa using h)
      have hsibling : sibling (a :: b :: rest) (position + 2) x = sibling rest position x := by
        unfold sibling
        rw [Nat.add_mod_right]
        split
        · simp
        · next hodd =>
          obtain ⟨k, rfl⟩ : ∃ k, position = k + 1 := ⟨position - 1, by omega⟩
          simp
      rw [hsibling, stepPair, Nat.add_mod_right, Nat.add_div_right _ Nat.two_pos, levelPairs,
        List.getElem?_cons_succ, hrest, stepPair]

/-- Equal levels above lists of one length come from equal lists, where the pairing tells the pairs
of both apart. -/
theorem levelUp_inj (hlen : l.length = l'.length) (h : levelUp node l = levelUp node l')
    (hinj : ∀ p ∈ levelPairs l, ∀ q ∈ levelPairs l', node p.1 p.2 = node q.1 q.2 → p = q) :
    l = l' := by
  induction l using levelUp.induct generalizing l' with
  | case1 => exact (List.length_eq_zero_iff.mp hlen.symm).symm
  | case2 a =>
    obtain ⟨a', rfl⟩ := List.length_eq_one_iff.mp hlen.symm
    have hpair := hinj (a, a) (by simp [levelPairs]) (a', a') (by simp [levelPairs])
      (List.cons.inj h).1
    rw [(Prod.mk.inj hpair).1]
  | case3 a b rest ih =>
    match l', hlen with
    | a' :: b' :: rest', hlen =>
      obtain ⟨hhead, htail⟩ := List.cons.inj h
      have hpair := hinj (a, b) (by simp [levelPairs]) (a', b') (by simp [levelPairs]) hhead
      obtain ⟨rfl, rfl⟩ := Prod.mk.inj hpair
      rw [ih (by simpa using hlen) htail fun p hp q hq => hinj p (List.mem_cons_of_mem _ hp) q
        (List.mem_cons_of_mem _ hq)]

end Positions

/-! ## Levels -/

section Levels
variable (node : Nat → H → H → H)

/-- The last level, after at most so many rounds. -/
def top : Nat → Nat → List H → List H
  | 0, _, l => l
  | rounds + 1, level, l =>
    if 1 < l.length then top rounds (level + 1) (levelUp (node level) l) else l

/-- With enough rounds one node is left. -/
theorem length_top (hne : l ≠ []) (hrounds : l.length ≤ rounds) :
    (top node rounds level l).length = 1 := by
  induction rounds generalizing level l with
  | zero => exact absurd (List.length_eq_zero_iff.mp (Nat.le_zero.mp hrounds)) hne
  | succ rounds ih =>
    have hpos := List.length_pos_iff.mpr hne
    have hup := length_levelUp (node level) l
    rw [top]
    split
    · exact ih (List.length_pos_iff.mp (by omega)) (by omega)
    · omega

/-- The pairs formed on the way to the last level, with their levels. -/
def topPairs : Nat → Nat → List H → List (Nat × H × H)
  | 0, _, _ => []
  | rounds + 1, level, l =>
    if 1 < l.length then
      (levelPairs l).map (fun p => (level, p)) ++
        topPairs rounds (level + 1) (levelUp (node level) l)
    else []

/-- What is on the next level was formed from a pair of this one. -/
theorem exists_levelPair (h : x ∈ levelUp (node level) l) (later : List (Nat × H × H)) :
    ∃ p ∈ (levelPairs l).map (fun p => (level, p)) ++ later, x = node p.1 p.2.1 p.2.2 := by
  rw [levelUp_eq_map] at h
  obtain ⟨p, hp, rfl⟩ := List.mem_map.mp h
  exact ⟨(level, p), List.mem_append_left _ (List.mem_map_of_mem hp), rfl⟩

/-- What is left is a leaf or was formed on the way. -/
theorem mem_top (h : x ∈ top node rounds level l) :
    x ∈ l ∨ ∃ p ∈ topPairs node rounds level l, x = node p.1 p.2.1 p.2.2 := by
  induction rounds generalizing level l with
  | zero => exact .inl h
  | succ rounds ih =>
    simp only [top, topPairs] at h ⊢
    split at h
    · next hwide =>
      rw [if_pos hwide]
      right
      rcases ih h with h | ⟨p, hp, rfl⟩
      · exact exists_levelPair node h _
      · exact ⟨p, List.mem_append_right _ hp, rfl⟩
    · exact .inl h

/-- Above more than one leaf, what is left was formed. -/
theorem exists_pair_of_mem_top (hwide : 1 < l.length) (h : x ∈ top node (rounds + 1) level l) :
    ∃ p ∈ topPairs node (rounds + 1) level l, x = node p.1 p.2.1 p.2.2 := by
  simp only [top, topPairs, if_pos hwide] at h ⊢
  rcases mem_top node h with h | ⟨p, hp, rfl⟩
  · exact exists_levelPair node h _
  · exact ⟨p, List.mem_append_right _ hp, rfl⟩

/-- The first of a pair is a leaf or was formed before. -/
theorem fst_of_mem_topPairs (h : p ∈ topPairs node rounds level l) :
    p.2.1 ∈ l ∨ ∃ q ∈ topPairs node rounds level l, p.2.1 = node q.1 q.2.1 q.2.2 := by
  induction rounds generalizing level l with
  | zero => cases h
  | succ rounds ih =>
    simp only [topPairs] at h ⊢
    split at h
    · next hwide =>
      rw [if_pos hwide]
      rcases List.mem_append.mp h with h | h
      · obtain ⟨p, hp, rfl⟩ := List.mem_map.mp h
        exact .inl (mem_of_mem_levelPairs hp).1
      right
      rcases ih h with hup | ⟨q, hq, heq⟩
      · exact exists_levelPair node hup _
      · exact ⟨q, List.mem_append_right _ hq, heq⟩
    · cases h

theorem top_inj (hlen : l.length = l'.length)
    (h : top node rounds level l = top node rounds level l')
      (hinj : ∀ p ∈ topPairs node rounds level l, ∀ q ∈ topPairs node rounds level l', p.1 = q.1 →
      node p.1 p.2.1 p.2.2 = node q.1 q.2.1 q.2.2 → p.2 = q.2) : l = l' := by
  induction rounds generalizing level l l' with
  | zero => exact h
  | succ rounds ih =>
    simp only [top, topPairs, ← hlen] at h hinj
    split at h
    · next hwide =>
      rw [if_pos hwide, if_pos hwide] at hinj
      have hup : levelUp (node level) l = levelUp (node level) l' := by
        refine ih (by rw [length_levelUp, length_levelUp, hlen]) h fun p hp q hq => ?_
        exact hinj p (List.mem_append_right _ hp) q (List.mem_append_right _ hq)
      refine levelUp_inj hlen hup fun p hp q hq heq => ?_
      exact hinj (level, p) (List.mem_append_left _ (List.mem_map_of_mem hp)) (level, q)
        (List.mem_append_left _ (List.mem_map_of_mem hq)) rfl heq
    · exact h

end Levels

/-! ## Walks -/

section Walks
variable (node : H → H → H)

theorem clog_length_levelUp (hwide : 1 < l.length) :
    Nat.clog 2 l.length = Nat.clog 2 (levelUp node l).length + 1 := by
  rw [length_levelUp, Nat.clog_of_two_le (by omega) hwide]
  rfl

theorem one_lt_iff_clog_pos {n : Nat} : 1 < n ↔ 0 < Nat.clog 2 n := by
  refine ⟨Nat.clog_pos one_lt_two, fun h => ?_⟩
  by_contra hle
  rw [Nat.clog_of_right_le_one (by omega)] at h
  omega

variable {S : Type} (pair : H → S → H × H)

/-- The pairs formed on the way from a node along steps, each of which pairs a node with another. -/
def climbPairs : H → List S → List (H × H)
  | _, [] => []
  | x, s :: rest => pair x s :: climbPairs (node (pair x s).1 (pair x s).2) rest

/-- At the exact depth only leaves reach the last node, whatever they are paired with and in which
order. -/
theorem mem_of_climb (hpair : ∀ x s, (pair x s).1 = x ∨ (pair x s).2 = x)
    (hrounds : l.length ≤ rounds) (htop : top (fun _ => node) rounds level l = [r])
    (hlen : path.length = Nat.clog 2 l.length)
    (hclimb : path.foldl (fun x s => node (pair x s).1 (pair x s).2) x = r)
    (hinj : ∀ p ∈ climbPairs node pair x path, ∀ q ∈ topPairs (fun _ => node) rounds level l,
      node p.1 p.2 = node q.2.1 q.2.2 → p = q.2 ∨ p = q.2.swap) : x ∈ l := by
  induction rounds generalizing level l x path with
  | zero =>
    rw [List.length_eq_zero_iff.mp (Nat.le_zero.mp hrounds), top] at htop
    cases htop
  | succ rounds ih =>
    have hup := length_levelUp node l
    simp only [top, topPairs] at htop hinj
    split at htop
    · next hwide =>
      rw [clog_length_levelUp node hwide] at hlen
      obtain ⟨s, path, rfl⟩ := List.exists_cons_of_length_eq_add_one hlen
      rw [if_pos hwide] at hinj
      have hmem : node (pair x s).1 (pair x s).2 ∈ levelUp node l := by
        refine ih (by omega) htop (by simpa using hlen) hclimb fun p hp q hq => ?_
        exact hinj p (List.mem_cons_of_mem _ hp) q (List.mem_append_right _ hq)
      rw [levelUp_eq_map] at hmem
      obtain ⟨q, hq, heq⟩ := List.mem_map.mp hmem
      have hpairs := hinj _ List.mem_cons_self (level, q)
        (List.mem_append_left _ (List.mem_map_of_mem hq)) heq.symm
      obtain ⟨hfirst, hsecond⟩ := mem_of_mem_levelPairs hq
      have hboth : (pair x s).1 ∈ l ∧ (pair x s).2 ∈ l := by
        rcases hpairs with heq | heq <;> rw [heq]
        · exact ⟨hfirst, hsecond⟩
        · exact ⟨hsecond, hfirst⟩
      rcases hpair x s with heq | heq
      · exact heq ▸ hboth.1
      · exact heq ▸ hboth.2
    · next hnarrow =>
      rw [Nat.clog_of_right_le_one (by omega), List.length_eq_zero_iff] at hlen
      rw [htop, ← hclimb, hlen]
      simp

/-- The walk from a position along siblings. -/
def walk : H → Nat → List H → H
  | x, _, [] => x
  | x, position, s :: rest =>
    walk (node (stepPair x position s).1 (stepPair x position s).2) (position / 2) rest

def walkPairs : H → Nat → List H → List (H × H)
  | _, _, [] => []
  | x, position, s :: rest => stepPair x position s ::
    walkPairs (node (stepPair x position s).1 (stepPair x position s).2) (position / 2) rest

/-- The siblings beside the way up from a position. The filler stands for nodes outside the
level. -/
def path (filler : H) : Nat → List H → Nat → List H
  | 0, _, _ => []
  | rounds + 1, l, position =>
    if 1 < l.length then
      sibling l position (l.getD position filler) ::
        path filler rounds (levelUp node l) (position / 2)
    else []

theorem getElem?_levelUp_stepPair (h : l[position]? = some x) :
    (levelUp node l)[position / 2]? = some (node (stepPair x position (sibling l position x)).1
      (stepPair x position (sibling l position x)).2) := by
  rw [levelUp_eq_map, List.getElem?_map, getElem?_levelPairs h, Option.map_some]

/-- The path of a leaf is as long as the tree is deep, and the walk along it ends at the last
node. -/
theorem walk_path {filler : H} (hrounds : l.length ≤ rounds) (h : l[position]? = some x) :
    (path node filler rounds l position).length = Nat.clog 2 l.length ∧
        top (fun _ => node) rounds level l =
        [walk node x position (path node filler rounds l position)] := by
  induction rounds generalizing level l position x with
  | zero =>
    rw [List.length_eq_zero_iff.mp (Nat.le_zero.mp hrounds)] at h
    simp at h
  | succ rounds ih =>
    have hup := length_levelUp node l
    simp only [path, top]
    split
    · next hwide =>
      have hx : l.getD position filler = x := by
        rw [List.getD_eq_getElem?_getD, h, Option.getD_some]
      obtain ⟨hlength, htop⟩ := @ih _ (level + 1) _ _ (by omega) (getElem?_levelUp_stepPair node h)
      rw [List.length_cons, hlength, clog_length_levelUp node hwide, hx, htop, walk]
      exact ⟨rfl, rfl⟩
    · next hnarrow =>
      obtain ⟨hposition, hx⟩ := List.getElem?_eq_some_iff.mp h
      obtain ⟨y, rfl⟩ := List.length_eq_one_iff.mp (show l.length = 1 by omega)
      obtain rfl : position = 0 := by simpa using hposition
      rw [Nat.clog_of_right_le_one (by simp)]
      exact ⟨rfl, by rw [← hx]; rfl⟩

/-- At the exact depth a walk reaches the last node from the leaf at its position only. -/
theorem getElem?_of_walk {l path : List H}
    (hrounds : l.length ≤ rounds) (hposition : position < l.length)
    (htop : top (fun _ => node) rounds level l = [r]) (hlen : path.length = Nat.clog 2 l.length)
    (hwalk : walk node x position path = r)
    (hinj : ∀ p ∈ walkPairs node x position path, ∀ q ∈ topPairs (fun _ => node) rounds level l,
      node p.1 p.2 = node q.2.1 q.2.2 → p = q.2) : l[position]? = some x := by
  induction rounds generalizing level l x position path with
  | zero => omega
  | succ rounds ih =>
    have hup := length_levelUp node l
    simp only [top, topPairs] at htop hinj
    split at htop
    · next hwide =>
      rw [clog_length_levelUp node hwide] at hlen
      obtain ⟨s, path, rfl⟩ := List.exists_cons_of_length_eq_add_one hlen
      rw [if_pos hwide] at hinj
      have habove := ih (by omega) (show position / 2 < _ by omega) htop (by simpa using hlen) hwalk
        fun p hp q hq => hinj p (List.mem_cons_of_mem _ hp) q (List.mem_append_right _ hq)
      -- the node above was formed from the leaf at this position
      obtain ⟨y, hy⟩ : ∃ y, l[position]? = some y := ⟨_, List.getElem?_eq_getElem hposition⟩
      rw [getElem?_levelUp_stepPair node hy, Option.some.injEq] at habove
      have hpair := List.mem_of_getElem? (getElem?_levelPairs hy)
      have hstep := hinj _ List.mem_cons_self _
        (List.mem_append_left _ (List.mem_map_of_mem hpair)) habove.symm
      simp only [stepPair] at hstep
      split at hstep
      · rw [hy, (Prod.mk.inj hstep).1]
      · rw [hy, (Prod.mk.inj hstep).2]
    · next hnarrow =>
      rw [Nat.clog_of_right_le_one (by omega), List.length_eq_zero_iff] at hlen
      subst hlen htop
      obtain rfl : position = 0 := by simpa using hposition
      simp only [walk] at hwalk
      simp [hwalk]

end Walks

/-! ## Different leaves -/

section Nodup
variable (node : H → H → H)

theorem eq_of_map_eq {α β : Type} {f : α → β} {S : Set α} (hinj : Set.InjOn f S) {l l' : List α}
    (hl : ∀ x ∈ l, x ∈ S) (hl' : ∀ x ∈ l', x ∈ S) (h : l.map f = l'.map f) : l = l' := by
  have hlen : l.length = l'.length := by simpa using congrArg List.length h
  refine List.ext_getElem hlen fun i hi hi' => ?_
  apply hinj (hl _ (List.getElem_mem hi)) (hl' _ (List.getElem_mem hi'))
  have hget := congrArg (fun l => l[i]?) h
  simpa [List.getElem?_map, List.getElem?_eq_getElem hi, List.getElem?_eq_getElem hi'] using hget

theorem map_fst_levelPairs_sublist (l : List H) : ((levelPairs l).map Prod.fst).Sublist l := by
  induction l using levelPairs.induct with
  | case1 => simp [levelPairs]
  | case2 a => simp [levelPairs]
  | case3 a b rest ih => exact (ih.cons b).cons_cons a

theorem nodup_levelPairs (h : l.Nodup) : (levelPairs l).Nodup :=
  List.Nodup.of_map _ ((map_fst_levelPairs_sublist l).nodup h)

/-- Different nodes are paired with themselves only at the end. -/
theorem levelPairs_inj_of_nodup (hl : l.Nodup) (hl' : l'.Nodup)
    (h : levelPairs l = levelPairs l') : l = l' := by
  induction l using levelPairs.induct generalizing l' with
  | case1 => match l' with
    | [] => rfl
    | [_] | _ :: _ :: _ => simp [levelPairs] at h
  | case2 a => match l' with
    | [] => simp [levelPairs] at h
    | [b] => simpa [levelPairs] using h
    | b :: c :: rest =>
      simp only [levelPairs, List.cons.injEq, Prod.mk.injEq] at h
      obtain ⟨⟨rfl, rfl⟩, -⟩ := h
      simp at hl'
  | case3 a b rest ih => match l' with
    | [] => simp [levelPairs] at h
    | [c] =>
      simp only [levelPairs, List.cons.injEq, Prod.mk.injEq] at h
      obtain ⟨⟨rfl, rfl⟩, -⟩ := h
      simp at hl
    | c :: d :: rest' =>
      simp only [levelPairs, List.cons.injEq, Prod.mk.injEq] at h
      obtain ⟨⟨rfl, rfl⟩, h⟩ := h
      rw [ih (hl.sublist (by simp)) (hl'.sublist (by simp)) h]

/-- The way up along the left side, with the pairs formed on it. -/
theorem exists_left_climb {a : H} (hrounds : (a :: l).length ≤ rounds) :
    ∃ path, path.length = Nat.clog 2 (a :: l).length ∧
      top (fun _ => node) rounds level (a :: l) = [path.foldl node a] ∧
      ∀ p ∈ climbPairs node Prod.mk a path, ∃ q ∈ topPairs (fun _ => node) rounds level (a :: l),
      q.2 = p := by
  induction rounds generalizing level a l with
  | zero => simp at hrounds
  | succ rounds ih =>
    simp only [top, topPairs]
    split
    · next hwide =>
      obtain ⟨b, l, rfl⟩ : ∃ b l', l = b :: l' :=
        List.exists_cons_of_ne_nil (by rintro rfl; simp at hwide)
      have hup := length_levelUp node (a :: b :: l)
      obtain ⟨path, hlength, htop, hpairs⟩ := @ih (levelUp node l) (level + 1) (node a b)
        (by simp only [levelUp, List.length_cons] at hup hrounds ⊢; omega)
      refine ⟨b :: path, ?_, htop, ?_⟩
      · rw [clog_length_levelUp node hwide, List.length_cons, hlength, levelUp]
      · intro p hp
        rcases List.mem_cons.mp hp with rfl | hp
        · exact ⟨(level, a, b), by simp [levelPairs], rfl⟩
        · obtain ⟨q, hq, rfl⟩ := hpairs p hp
          exact ⟨q, List.mem_append_right _ hq, rfl⟩
    · next hnarrow =>
      obtain rfl : l = [] := by cases l with
        | nil => rfl
        | cons b l => simp at hnarrow
      exact ⟨[], by simp, rfl, by simp [climbPairs]⟩

variable {S : Set (H × H)} (hinj : Set.InjOn (fun p => node p.1 p.2) S)
include hinj

theorem eq_of_foldl_eq {path path' : List H} (hpath : ∀ p ∈ climbPairs node Prod.mk x path, p ∈ S)
    (hpath' : ∀ p ∈ climbPairs node Prod.mk y path', p ∈ S) (hlen : path.length = path'.length)
    (h : path.foldl node x = path'.foldl node y) : x = y := by
  induction path generalizing x y path' with
  | nil =>
    rw [List.length_eq_zero_iff.mp hlen.symm] at h
    exact h
  | cons s path ih =>
    obtain ⟨s', path', rfl⟩ := List.exists_cons_of_length_eq_add_one hlen.symm
    obtain ⟨hs, hpath⟩ := List.forall_mem_cons.mp hpath
    obtain ⟨hs', hpath'⟩ := List.forall_mem_cons.mp hpath'
    exact (Prod.mk.inj (hinj hs hs' (ih hpath hpath' (by simpa using hlen) h))).1

/-- Where two climbs meet, the shorter one starts at a node of the longer one. -/
theorem exists_pair_of_foldl_eq {path path' : List H}
    (hpath : ∀ p ∈ climbPairs node Prod.mk x path, p ∈ S)
    (hpath' : ∀ p ∈ climbPairs node Prod.mk y path', p ∈ S) (hlen : path.length < path'.length)
    (h : path.foldl node x = path'.foldl node y) :
    ∃ p ∈ S, x = node p.1 p.2 := by
  induction path' generalizing y with
  | nil => simp at hlen
  | cons s path' ih =>
    obtain ⟨hs, hpath'⟩ := List.forall_mem_cons.mp hpath'
    rcases Nat.lt_succ_iff_lt_or_eq.mp hlen with hlt | heq
    · exact ih hpath' hlt h
    · exact ⟨(y, s), hs, eq_of_foldl_eq node hinj hpath hpath' heq h⟩

theorem nodup_levelUp (hS : ∀ p ∈ levelPairs l, p ∈ S) (h : l.Nodup) : (levelUp node l).Nodup := by
  rw [levelUp_eq_map]
  exact (nodup_levelPairs h).map_on fun p hp q hq => hinj (hS p hp) (hS q hq)

section
variable {rounds' : Nat} (hne : l ≠ []) (hne' : l' ≠ []) (hrounds : l.length ≤ rounds)
  (hrounds' : l'.length ≤ rounds') (hS : ∀ p ∈ topPairs (fun _ => node) rounds level l, p.2 ∈ S)
  (hS' : ∀ p ∈ topPairs (fun _ => node) rounds' level l', p.2 ∈ S)
  (h : top (fun _ => node) rounds level l = top (fun _ => node) rounds' level l')
include hne hne' hrounds hrounds' hS hS' h

/-- Trees with one last node are of one depth, where leaves are no nodes. -/
theorem clog_eq_of_top_eq (hleaf : ∀ x ∈ l ++ l', ∀ p ∈ S, x ≠ node p.1 p.2) :
    Nat.clog 2 l.length = Nat.clog 2 l'.length := by
  obtain ⟨a, l, rfl⟩ := List.exists_cons_of_ne_nil hne
  obtain ⟨a', l', rfl⟩ := List.exists_cons_of_ne_nil hne'
  obtain ⟨path, hlength, htop, hpairs⟩ := @exists_left_climb _ _ _ level node _ hrounds
  obtain ⟨path', hlength', htop', hpairs'⟩ := @exists_left_climb _ _ _ level node _ hrounds'
  have hin : ∀ p ∈ climbPairs node Prod.mk a path, p ∈ S := by
    intro p hp
    obtain ⟨q, hq, rfl⟩ := hpairs p hp
    exact hS q hq
  have hin' : ∀ p ∈ climbPairs node Prod.mk a' path', p ∈ S := by
    intro p hp
    obtain ⟨q, hq, rfl⟩ := hpairs' p hp
    exact hS' q hq
  have hmeet : path.foldl node a = path'.foldl node a' := by
    rw [htop, htop'] at h
    exact (List.cons.inj h).1
  rw [← hlength, ← hlength']
  rcases Nat.lt_trichotomy path.length path'.length with hlt | heq | hgt
  · obtain ⟨p, hp, hnode⟩ := exists_pair_of_foldl_eq node hinj hin hin' hlt hmeet
    exact absurd hnode (hleaf a (by simp) p hp)
  · exact heq
  · obtain ⟨p, hp, hnode⟩ := exists_pair_of_foldl_eq node hinj hin' hin hgt hmeet.symm
    exact absurd hnode (hleaf a' (by simp) p hp)

/-- Trees of one depth over different leaves with one last node have the same leaves. -/
theorem eq_of_top_eq (hl : l.Nodup) (hl' : l'.Nodup)
    (hdepth : Nat.clog 2 l.length = Nat.clog 2 l'.length) :
    l = l' := by
  induction rounds generalizing rounds' level l l' with
  | zero => exact absurd (List.length_eq_zero_iff.mp (Nat.le_zero.mp hrounds)) hne
  | succ rounds ih =>
    have hpos := List.length_pos_iff.mpr hne
    have hpos' := List.length_pos_iff.mpr hne'
    obtain ⟨rounds', rfl⟩ : ∃ n, rounds' = n + 1 := ⟨rounds' - 1, by omega⟩
    have hup := length_levelUp node l
    have hup' := length_levelUp node l'
    have hwide_iff : 1 < l.length ↔ 1 < l'.length := by
      rw [one_lt_iff_clog_pos, one_lt_iff_clog_pos, hdepth]
    simp only [top, topPairs, ← hwide_iff] at h hS hS'
    split at h
    · next hwide =>
      rw [if_pos hwide, List.forall_mem_append, List.forall_mem_map] at hS hS'
      have hlevel : levelUp node l = levelUp node l' := by
        refine ih ?_ ?_ (by omega) (by omega) hS.2 hS'.2 h (nodup_levelUp node hinj hS.1 hl)
          (nodup_levelUp node hinj hS'.1 hl') ?_
        · exact List.length_pos_iff.mp (by omega)
        · exact List.length_pos_iff.mp (by omega)
        · have := clog_length_levelUp node hwide
          have := clog_length_levelUp node (hwide_iff.mp hwide)
          omega
      rw [levelUp_eq_map, levelUp_eq_map] at hlevel
      exact levelPairs_inj_of_nodup hl hl' (eq_of_map_eq hinj hS.1 hS'.1 hlevel)
    · exact h

/-- The last node determines different leaves and their number, where leaves are no nodes. -/
theorem top_inj_of_nodup (hl : l.Nodup) (hl' : l'.Nodup)
    (hleaf : ∀ x ∈ l ++ l', ∀ p ∈ S, x ≠ node p.1 p.2) :
    l = l' :=
  eq_of_top_eq node hinj hne hne' hrounds hrounds' hS hS' h hl hl'
    (clog_eq_of_top_eq node hinj hne hne' hrounds hrounds' hS hS' h hleaf)

end

end Nodup

end Lib.Merkle
