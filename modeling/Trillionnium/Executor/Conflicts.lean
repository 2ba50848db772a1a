import Trillionnium.Lib.OrdMap
import Trillionnium.Lib.Checked
import Trillionnium.Lib.Fallible

/-!
# Access domains and conflicts

The read and write sets of a transaction, the keys the scheduler derives from them and the conflict
test between two transactions (`trnm-executor`).
-/

namespace Trillionnium.Executor

open Lib

structure ObjectRef where
  id : U64
  version : U64
  deriving DecidableEq

structure Tx where
  id : U64
  readSet : List ObjectRef
  writeSet : List ObjectRef
  payload : Bytes

/-- A failed assertion: "mixed access domain contains the same object id with multiple versions". -/
inductive Panic where
  | mixedAccessDomain

/-! ## Keys -/

/-- Conflicts are object-scoped: the version is no part of the key. -/
def accessKey (obj : ObjectRef) : U64 := obj.id

/-- The keys in order of first occurrence. The source keeps what it has seen in a vector up to
eight objects and in a hash set beyond. -/
def dedupAccessKeys (objs : List ObjectRef) : List U64 :=
  objs.foldl (fun out obj =>
    if out.contains (accessKey obj) then out else out ++ [accessKey obj]) []

def readDomainOnlyKeys (readSet : List ObjectRef) (writeKeys : List U64) : List U64 :=
  (dedupAccessKeys readSet).filter fun key => !writeKeys.contains key

def Tx.writeKeys (tx : Tx) : List U64 := dedupAccessKeys tx.writeSet

/-- The keys that are read and not written. -/
def Tx.readKeys (tx : Tx) : List U64 := readDomainOnlyKeys tx.readSet tx.writeKeys

/-! ## Consistent versions -/

/-- The loop over a vector of the versions seen. -/
def versionsAgreeSmall : List (U64 × U64) → List ObjectRef → Bool
  | _, [] => true
  | seen, obj :: rest =>
    match seen.find? fun entry => entry.1 == obj.id with
    | some entry => if entry.2 ≠ obj.version then false else versionsAgreeSmall seen rest
    | none => versionsAgreeSmall (seen ++ [(obj.id, obj.version)]) rest

/-- The loop over a map, whose `insert` hands back the version it replaces. -/
def versionsAgree : OrdMap U64 U64 → List ObjectRef → Bool
  | _, [] => true
  | seen, obj :: rest =>
    match seen.get obj.id with
    | some version =>
      if version ≠ obj.version then false else versionsAgree (seen.insert obj.id obj.version) rest
    | none => versionsAgree (seen.insert obj.id obj.version) rest

/-- Up to eight objects a vector is enough. -/
def footprintAgrees (objs : List ObjectRef) : Bool :=
  if objs.length ≤ 8 then versionsAgreeSmall [] objs else versionsAgree ∅ objs

def accessDomainVersionsAreConsistent (objs : List ObjectRef) : Bool :=
  match objs with
  | [] => true
  | [_] => true
  | [a, b] => a.id != b.id || a.version == b.version
  | objs => footprintAgrees objs

def combinedAccessDomainVersionsAreConsistent (reads writes : List ObjectRef) : Bool :=
  match reads, writes with
  | [], writes => accessDomainVersionsAreConsistent writes
  | reads, [] => accessDomainVersionsAreConsistent reads
  | [r], [w] => r.id != w.id || r.version == w.version
  | reads, writes => footprintAgrees (writes ++ reads)

def assertConsistent (tx : Tx) : Except Panic Unit :=
  require (combinedAccessDomainVersionsAreConsistent tx.readSet tx.writeSet) .mixedAccessDomain

def assertConsistentBatch (txs : List Tx) : Except Panic Unit := txs.forM assertConsistent

/-! ## Conflicts -/

def intersects (x y : List ObjectRef) : Bool :=
  match x, y with
  | [], _ => false
  | _, [] => false
  | [a], y => y.any fun obj => accessKey obj == accessKey a
  | x, [b] => x.any fun obj => accessKey obj == accessKey b
  | x, y =>
    let small := if x.length ≤ y.length then x else y
    let large := if x.length ≤ y.length then y else x
    if x.length ≤ 8 ∧ y.length ≤ 8 ∨ small.length ≤ 4 ∨
        small.length ≤ 8 ∧ 16 ≤ large.length ∧ large.length ≤ 128 then
      (dedupAccessKeys small).any fun key => large.any fun obj => accessKey obj == key
    else
      large.any fun obj => (small.map accessKey).contains (accessKey obj)

def detectConflict (a b : Tx) : Except Panic Bool := do
  assertConsistent a
  assertConsistent b
  if a.writeSet.isEmpty && b.writeSet.isEmpty then
    return false
  else if a.writeSet.isEmpty then
    return intersects a.readSet b.writeSet
  else if b.writeSet.isEmpty then
    return intersects a.writeSet b.readSet
  else if a.readSet.isEmpty && b.readSet.isEmpty then
    return intersects a.writeSet b.writeSet
  else
    return intersects a.writeSet b.writeSet || intersects a.writeSet b.readSet ||
      intersects a.readSet b.writeSet

/-! ## What the tests decide -/

variable {objs : List ObjectRef}

theorem mem_dedupAccessKeys : key ∈ dedupAccessKeys objs ↔ ∃ obj ∈ objs, accessKey obj = key := by
  -- the fold keeps what it has and adds the keys still missing
  have hfold : ∀ (objs : List ObjectRef) (out : List U64),
      key ∈ objs.foldl (fun out obj =>
        if out.contains (accessKey obj) then out else out ++ [accessKey obj]) out ↔
      key ∈ out ∨ ∃ obj ∈ objs, accessKey obj = key := by
    intro objs
    induction objs with
    | nil => intro out; simp
    | cons obj objs ih =>
      intro out
      rw [List.foldl_cons, ih]
      by_cases hseen : out.contains (accessKey obj)
      · have hmem := List.contains_iff_mem.mp hseen
        rw [if_pos hseen, List.exists_mem_cons_iff, ← or_assoc]
        constructor
        · exact Or.imp_left .inl
        · exact Or.imp_left fun h => h.elim id fun heq => heq ▸ hmem
      · rw [if_neg hseen]
        simp [or_assoc, eq_comm]
  exact (hfold objs []).trans (by simp)

theorem mem_writeKeys {tx : Tx} :
    key ∈ tx.writeKeys ↔ ∃ obj ∈ tx.writeSet, obj.id = key := mem_dedupAccessKeys

theorem mem_readKeys {tx : Tx} :
    key ∈ tx.readKeys ↔ (∃ obj ∈ tx.readSet, obj.id = key) ∧ key ∉ tx.writeKeys := by
  simp [Tx.readKeys, readDomainOnlyKeys, mem_dedupAccessKeys, accessKey]

theorem intersects_iff : intersects x y = true ↔ ∃ a ∈ x, ∃ b ∈ y, a.id = b.id := by
  unfold intersects
  split
  · simp
  · simp
  · simp only [List.any_eq_true, beq_iff_eq, List.mem_singleton, exists_eq_left, accessKey]
    exact ⟨fun ⟨b, hb, h⟩ => ⟨b, hb, h.symm⟩, fun ⟨b, hb, h⟩ => ⟨b, hb, h.symm⟩⟩
  · simp only [List.any_eq_true, beq_iff_eq, List.mem_singleton, exists_eq_left, accessKey]
  · extract_lets small large
    -- the smaller side is one of the two and the larger one the other
    have hsides : (∃ a ∈ x, ∃ b ∈ y, a.id = b.id) ↔ ∃ a ∈ small, ∃ b ∈ large, a.id = b.id := by
      by_cases hle : x.length ≤ y.length
      · simp only [small, large, if_pos hle]
      · simp only [small, large, if_neg hle]
        exact ⟨fun ⟨a, ha, b, hb, h⟩ => ⟨b, hb, a, ha, h.symm⟩,
          fun ⟨a, ha, b, hb, h⟩ => ⟨b, hb, a, ha, h.symm⟩⟩
    rw [hsides]
    split
    · simp only [List.any_eq_true, mem_dedupAccessKeys, beq_iff_eq, accessKey]
      exact ⟨fun ⟨_, ⟨a, ha, hk⟩, b, hb, h⟩ => ⟨a, ha, b, hb, hk.trans h.symm⟩,
        fun ⟨a, ha, b, hb, h⟩ => ⟨_, ⟨a, ha, rfl⟩, b, hb, h.symm⟩⟩
    · simp only [List.any_eq_true, List.contains_iff_mem, List.mem_map, accessKey]
      exact ⟨fun ⟨b, hb, a, ha, h⟩ => ⟨a, ha, b, hb, h⟩, fun ⟨a, ha, b, hb, h⟩ => ⟨b, hb, a, ha, h⟩⟩

/-- No object id stands with two versions. -/
def Agree (objs : List ObjectRef) : Prop :=
  ∀ a ∈ objs, ∀ b ∈ objs, a.id = b.id → a.version = b.version

/-- A transaction with consistent access-domain versions. -/
def Tx.Consistent (tx : Tx) : Prop := Agree (tx.writeSet ++ tx.readSet)

instance (objs : List ObjectRef) : Decidable (Agree objs) :=
  inferInstanceAs (Decidable (∀ a ∈ objs, ∀ b ∈ objs, a.id = b.id → a.version = b.version))

instance (tx : Tx) : Decidable tx.Consistent :=
  inferInstanceAs (Decidable (Agree (tx.writeSet ++ tx.readSet)))

section
variable {obj : ObjectRef} {objs rest : List ObjectRef} {look look' : U64 → Option U64}

/-- The objects agree with one another and with the versions seen before them. -/
def AgreesWith (look : U64 → Option U64) (objs : List ObjectRef) : Prop :=
  Agree objs ∧ ∀ obj ∈ objs, ∀ version, look obj.id = some version → version = obj.version

theorem agreesWith_none : AgreesWith (fun _ => none) objs ↔ Agree objs :=
  ⟨And.left, fun h => ⟨h, fun _ _ _ hnone => nomatch hnone⟩⟩

/-- One turn of either loop. -/
theorem agreesWith_cons
    (hlook : ∀ id, look' id = if obj.id = id then some obj.version else look id) :
    AgreesWith look (obj :: rest) ↔
      (∀ version, look obj.id = some version → version = obj.version) ∧ AgreesWith look' rest := by
  constructor
  · rintro ⟨hagree, hseen⟩
    refine ⟨hseen obj List.mem_cons_self, fun a ha b hb => hagree a (.tail _ ha) b (.tail _ hb), ?_⟩
    intro a ha version hversion
    rw [hlook] at hversion
    split at hversion
    · next hid =>
      obtain rfl := Option.some.inj hversion
      exact hagree obj List.mem_cons_self a (.tail _ ha) hid
    · exact hseen a (.tail _ ha) version hversion
  · rintro ⟨hobj, hagree, hseen⟩
    have hsame : ∀ a ∈ rest, obj.id = a.id → obj.version = a.version := fun a ha hid =>
      hseen a ha obj.version ((hlook a.id).trans (if_pos hid))
    refine ⟨?_, ?_⟩
    · intro a ha b hb hid
      rcases List.mem_cons.mp ha with heq | ha' <;> rcases List.mem_cons.mp hb with heq' | hb'
      · rw [heq, heq']
      · exact heq ▸ hsame b hb' (heq ▸ hid)
      · exact heq' ▸ (hsame a ha' (heq' ▸ hid.symm)).symm
      · exact hagree a ha' b hb' hid
    · intro a ha version hversion
      rcases List.mem_cons.mp ha with rfl | ha
      · exact hobj version hversion
      · by_cases hid : obj.id = a.id
        · exact (hobj version (hid ▸ hversion)).trans (hsame a ha hid)
        · exact hseen a ha version ((hlook a.id).trans ((if_neg hid).trans hversion))

theorem versionsAgreeSmall_iff :
    versionsAgreeSmall seen objs ↔
      AgreesWith (fun id => (seen.find? (·.1 == id)).map (·.2)) objs := by
  induction objs generalizing seen with
  | nil => simp [versionsAgreeSmall, AgreesWith, Agree]
  | cons obj rest ih =>
    rw [versionsAgreeSmall]
    split
    · next entry hentry =>
      split
      · next hne =>
        refine ⟨nofun, fun h => absurd (h.2 obj List.mem_cons_self entry.2 ?_) hne⟩
        dsimp only
        rw [hentry, Option.map_some]
      · next heq =>
        rw [ih, agreesWith_cons, and_iff_right]
        · intro version hversion
          rw [hentry, Option.map_some] at hversion
          exact (Option.some.inj hversion).symm.trans (not_not.mp heq)
        · intro id
          split
          · next hid => rw [← hid, hentry, Option.map_some, not_not.mp heq]
          · rfl
    · next hnone =>
      rw [ih, agreesWith_cons, and_iff_right]
      · intro version hversion
        rw [hnone] at hversion
        cases hversion
      · intro id
        rw [List.find?_append]
        by_cases hid : obj.id = id
        · rw [if_pos hid, ← hid, hnone]
          simp
        · rw [if_neg hid]
          simp [hid]

theorem versionsAgree_iff : versionsAgree seen objs ↔ AgreesWith seen.get objs := by
  induction objs generalizing seen with
  | nil => simp [versionsAgree, AgreesWith, Agree]
  | cons obj rest ih =>
    rw [versionsAgree, agreesWith_cons fun id => OrdMap.get_insert ..]
    split
    · next version hversion =>
      split
      · next hne => exact ⟨nofun, fun h => absurd (h.1 version hversion) hne⟩
      · next heq =>
        rw [ih, and_iff_right]
        intro version' hversion'
        rw [hversion] at hversion'
        exact (Option.some.inj hversion').symm.trans (not_not.mp heq)
    · next hnone =>
      rw [ih, and_iff_right]
      intro version hversion
      rw [hnone] at hversion
      cases hversion

theorem footprintAgrees_iff : footprintAgrees objs ↔ Agree objs := by
  rw [footprintAgrees, ← agreesWith_none]
  split
  · exact versionsAgreeSmall_iff
  · rw [versionsAgree_iff]
    simp [AgreesWith]

end

theorem pair_agrees_iff (h : ∀ x, x ∈ objs ↔ x = a ∨ x = b) :
    (a.id != b.id || a.version == b.version) = true ↔ Agree objs := by
  simp only [Bool.or_eq_true, bne_iff_ne, beq_iff_eq, ← imp_iff_not_or]
  constructor
  · intro hpair x hx y hy hid
    rcases (h x).mp hx with rfl | rfl <;> rcases (h y).mp hy with rfl | rfl
    · rfl
    · exact hpair hid
    · exact (hpair hid.symm).symm
    · rfl
  · exact fun hagree => hagree a ((h a).mpr (.inl rfl)) b ((h b).mpr (.inr rfl))

theorem accessDomainVersionsAreConsistent_iff :
    accessDomainVersionsAreConsistent objs ↔ Agree objs := by
  unfold accessDomainVersionsAreConsistent
  split
  · simp [Agree]
  · simp [Agree]
  · exact pair_agrees_iff (by simp)
  · exact footprintAgrees_iff

theorem combinedAccessDomainVersionsAreConsistent_iff :
    combinedAccessDomainVersionsAreConsistent reads writes ↔ Agree (writes ++ reads) := by
  unfold combinedAccessDomainVersionsAreConsistent
  split
  · rw [List.append_nil, accessDomainVersionsAreConsistent_iff]
  · rw [List.nil_append, accessDomainVersionsAreConsistent_iff]
  · exact pair_agrees_iff (by simp [or_comm])
  · exact footprintAgrees_iff

/-- A consistent transaction passes the assertion. -/
theorem Tx.Consistent.passes (h : tx.Consistent) : assertConsistent tx = .ok () := by
  rw [assertConsistent, require_eq_ok]
  exact combinedAccessDomainVersionsAreConsistent_iff.mpr h

theorem assertConsistentBatch_of_consistent (h : ∀ tx ∈ txs, tx.Consistent) :
    assertConsistentBatch txs = .ok () := by
  induction txs with
  | nil => rfl
  | cons tx txs ih =>
    have htail : assertConsistentBatch txs = .ok () := ih fun t ht => h t (.tail _ ht)
    calc assertConsistentBatch (tx :: txs)
        = (assertConsistent tx >>= fun _ => assertConsistentBatch txs) := rfl
      _ = .ok () := by rw [(h tx List.mem_cons_self).passes, htail]; rfl

/-- One of the two writes a key that the other accesses. -/
def Tx.Conflicts (a b : Tx) : Prop :=
  (∃ key ∈ a.writeKeys, key ∈ b.writeKeys) ∨ (∃ key ∈ a.writeKeys, key ∈ b.readKeys) ∨
    ∃ key ∈ a.readKeys, key ∈ b.writeKeys

instance (a b : Tx) : Decidable (a.Conflicts b) := inferInstanceAs (Decidable (_ ∨ _ ∨ _))

/-- A key that is read and written counts as written, on both sides. -/
theorem conflicts_iff {a b : Tx} : a.Conflicts b ↔
    intersects a.writeSet b.writeSet ∨ intersects a.writeSet b.readSet ∨
    intersects a.readSet b.writeSet := by
  simp only [Tx.Conflicts, intersects_iff, mem_writeKeys, mem_readKeys]
  constructor
  · rintro (⟨key, ⟨x, hx, hxk⟩, y, hy, hyk⟩ | ⟨key, ⟨x, hx, hxk⟩, ⟨y, hy, hyk⟩, -⟩ |
      ⟨key, ⟨⟨x, hx, hxk⟩, -⟩, y, hy, hyk⟩)
    · exact .inl ⟨x, hx, y, hy, hxk.trans hyk.symm⟩
    · exact .inr (.inl ⟨x, hx, y, hy, hxk.trans hyk.symm⟩)
    · exact .inr (.inr ⟨x, hx, y, hy, hxk.trans hyk.symm⟩)
  · rintro (⟨x, hx, y, hy, h⟩ | ⟨x, hx, y, hy, h⟩ | ⟨x, hx, y, hy, h⟩)
    · exact .inl ⟨x.id, ⟨x, hx, rfl⟩, y, hy, h.symm⟩
    · by_cases hw : ∃ obj ∈ b.writeSet, obj.id = x.id
      · exact .inl ⟨x.id, ⟨x, hx, rfl⟩, hw⟩
      · exact .inr (.inl ⟨x.id, ⟨x, hx, rfl⟩, ⟨y, hy, h.symm⟩, hw⟩)
    · by_cases hw : ∃ obj ∈ a.writeSet, obj.id = x.id
      · exact .inl ⟨x.id, hw, y, hy, h.symm⟩
      · exact .inr (.inr ⟨x.id, ⟨⟨x, hx, rfl⟩, hw⟩, y, hy, h.symm⟩)

/-- The answer of the test on two consistent transactions: the fast paths leave out probes of empty
sets only. -/
theorem detectConflict_eq (ha : a.Consistent) (hb : b.Consistent) :
    detectConflict a b = .ok (decide (a.Conflicts b)) := by
  have hleft (y : List ObjectRef) : intersects [] y = false := by simp [intersects]
  have hright (x : List ObjectRef) : intersects x [] = false := by
    rw [Bool.eq_false_iff, ne_eq, intersects_iff]; simp
  have hdecide : decide (a.Conflicts b) = (intersects a.writeSet b.writeSet ||
      (intersects a.writeSet b.readSet || intersects a.readSet b.writeSet)) := by
    rw [Bool.eq_iff_iff, decide_eq_true_iff, conflicts_iff]
    simp
  unfold detectConflict
  rw [hdecide, ha.passes, hb.passes]
  simp only [List.isEmpty_iff, Bool.and_eq_true]
  change (if _ then _ else _ : Except Panic Bool) = _
  split
  · rename_i h
    rw [h.1, h.2, hleft, hleft, hright]
    rfl
  · split
    · rename_i h
      rw [h, hleft, hleft]
      rfl
    · split
      · rename_i h
        rw [h, hright, hright, Bool.or_false, Bool.false_or]
        rfl
      · split
        · rename_i h
          rw [h.1, h.2, hleft, hright, Bool.or_false, Bool.or_false]
          rfl
        · rw [← Bool.or_assoc]
          rfl

/-! ## Footprints -/

def Tx.Writes (tx : Tx) (id : U64) : Prop := ∃ obj ∈ tx.writeSet, obj.id = id

def Tx.Reads (tx : Tx) (id : U64) : Prop := ∃ obj ∈ tx.readSet, obj.id = id

/-- Some id is written by one of the two and read or written by the other. -/
def Tx.Clash (a b : Tx) : Prop :=
  ∃ id, a.Writes id ∧ (b.Reads id ∨ b.Writes id) ∨ b.Writes id ∧ (a.Reads id ∨ a.Writes id)

/-- The same ids are written and the same are read, at whatever versions, in whatever order and
however often. -/
def Tx.SameIds (a b : Tx) : Prop :=
  (∀ id, a.Writes id ↔ b.Writes id) ∧ ∀ id, a.Reads id ↔ b.Reads id

theorem Tx.clash_comm {a b : Tx} : a.Clash b ↔ b.Clash a := exists_congr fun _ => or_comm

theorem Tx.SameIds.clash_iff {a a' b b' : Tx} (ha : a.SameIds a') (hb : b.SameIds b') :
    a.Clash b ↔ a'.Clash b' := by
  simp only [Tx.Clash, ha.1, ha.2, hb.1, hb.2]

theorem conflicts_iff_clash {a b : Tx} : a.Conflicts b ↔ a.Clash b := by
  simp only [conflicts_iff, intersects_iff, Tx.Clash, Tx.Writes, Tx.Reads]
  constructor
  · rintro (⟨x, hx, y, hy, h⟩ | ⟨x, hx, y, hy, h⟩ | ⟨x, hx, y, hy, h⟩)
    · exact ⟨x.id, .inl ⟨⟨x, hx, rfl⟩, .inr ⟨y, hy, h.symm⟩⟩⟩
    · exact ⟨x.id, .inl ⟨⟨x, hx, rfl⟩, .inl ⟨y, hy, h.symm⟩⟩⟩
    · exact ⟨x.id, .inr ⟨⟨y, hy, h.symm⟩, .inl ⟨x, hx, rfl⟩⟩⟩
  · rintro ⟨_, ⟨⟨x, hx, rfl⟩, ⟨y, hy, h⟩ | ⟨y, hy, h⟩⟩ | ⟨⟨y, hy, rfl⟩, ⟨x, hx, h⟩ | ⟨x, hx, h⟩⟩⟩
    · exact .inr (.inl ⟨x, hx, y, hy, h.symm⟩)
    · exact .inl ⟨x, hx, y, hy, h.symm⟩
    · exact .inr (.inr ⟨x, hx, y, hy, h⟩)
    · exact .inl ⟨x, hx, y, hy, h⟩

theorem detectConflict_eq_ok (ha : a.Consistent) (hb : b.Consistent) :
    detectConflict a b = .ok conflict ↔ (conflict = true ↔ a.Clash b) := by
  rw [detectConflict_eq ha hb, Except.ok.injEq, ← conflicts_iff_clash, Bool.eq_iff_iff,
    decide_eq_true_iff]
  exact iff_comm

/-- Conflicts are found exactly, whichever branch the sizes of the footprints select, and the check
of the versions is exact too. -/
theorem conflict_detection_exact :
    (∀ a b : Tx, a.Consistent → b.Consistent → ∃ conflict,
      detectConflict a b = .ok conflict ∧ (conflict = true ↔ a.Clash b) ∧
        detectConflict b a = .ok conflict ∧
        ∀ a' b' : Tx, a'.Consistent → b'.Consistent → a.SameIds a' → b.SameIds b' →
          detectConflict a' b' = .ok conflict) ∧
      ∀ reads writes : List ObjectRef,
        combinedAccessDomainVersionsAreConsistent reads writes = true ↔
        ∀ x ∈ writes ++ reads, ∀ y ∈ writes ++ reads, x.id = y.id → x.version = y.version := by
  refine ⟨fun a b ha hb => ?_, fun _ _ => combinedAccessDomainVersionsAreConsistent_iff⟩
  have hclash := (detectConflict_eq_ok ha hb).mp (detectConflict_eq ha hb)
  refine ⟨_, detectConflict_eq ha hb, hclash, ?_, fun a' b' ha' hb' hsame hsame' => ?_⟩
  · exact (detectConflict_eq_ok hb ha).mpr (hclash.trans Tx.clash_comm)
  · exact (detectConflict_eq_ok ha' hb').mpr (hclash.trans (hsame.clash_iff hsame'))

/-- Ten reads against a write of the last of them. -/
theorem wide_read_conflicts :
    ∃ conflict, detectConflict ⟨1, (List.range 10).map fun n =>
      ⟨n, 3⟩, [], []⟩ ⟨2, [], [⟨9, 3⟩, ⟨20, 0⟩], []⟩ = .ok conflict ∧ conflict = true := by
  obtain ⟨conflict, hdetected, hclash, -⟩ := conflict_detection_exact.1
    ⟨1, (List.range 10).map fun n => ⟨n, 3⟩, [], []⟩ ⟨2, [], [⟨9, 3⟩, ⟨20, 0⟩], []⟩ (by decide)
      (by decide)
  refine ⟨conflict, hdetected, hclash.mpr ⟨9, .inr ⟨⟨⟨9, 3⟩, by decide, rfl⟩,
    .inl ⟨⟨9, 3⟩, by decide, rfl⟩⟩⟩⟩

end Trillionnium.Executor
