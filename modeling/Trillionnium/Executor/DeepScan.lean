import Mathlib.Data.Finset.Card
import Trillionnium.Executor.Conflicts

/-!
# The deep scan

The path of `build_parallel_groups_aggressive_profile` that `TRNM_AGGR_DEEP_SCAN` switches on. It
tests the groups above the dependencies of a transaction one after the other, with the keys that
each group holds, and opens a new group where none takes it. The three vectors `groups`,
`group_read_keys` and `group_write_keys` grow together and are one list here.
-/

namespace Trillionnium.Executor

open Lib

/-- The settings of the scan; a window of zero is none. -/
structure ScanSettings where
  scanWindow : Nat
  skipEmptyStageChecks : Bool
  roundRobin : Bool
  roundRobinSeed : U64

structure Group where
  txs : List Tx
  readKeys : Finset U64
  writeKeys : Finset U64

structure ScanCounters where
  conflictChecks : Nat
  conflictHits : Nat
  candidateGroupsScanned : Nat
  retryFallbackNewGroups : Nat
  stageWwChecks : Nat
  stageWwHits : Nat
  stageWrChecks : Nat
  stageWrHits : Nat
  stageRwChecks : Nat
  stageRwHits : Nat

structure GroupingProfile where
  txCount : Nat
  groupCount : Nat
  groupedCount : Nat
  maxGroupSize : Nat
  minGroupSize : Nat
  conflictChecks : Nat
  conflictHits : Nat

def recordGroup (g : Nat) (latest : OrdMap U64 Nat) (keys : List U64) : OrdMap U64 Nat :=
  keys.foldl (fun latest key => latest.insert key g) latest

structure DeepScan where
  groups : List Group
  latestWriterGroup : OrdMap U64 Nat
  latestReaderGroup : OrdMap U64 Nat
  rrCursor : U64
  counters : ScanCounters

/-! ## The probes of a group -/

/-- Look each key up once, until one is found. -/
def probeUnseen (b : Finset U64) : List U64 → List U64 → Bool
  | _, [] => false
  | seen, k :: a =>
    if seen.contains k then probeUnseen b seen a
    else if k ∈ b then true
    else probeUnseen b (seen ++ [k]) a

/-- The source keeps the keys it has seen in a vector up to 32 keys and in a hash set beyond. -/
def vecHashsetIntersects (a : List U64) (b : Finset U64) : Bool :=
  match a with
  | [] => false
  | [k] => k ∈ b
  | a =>
    if b = ∅ then false
    else if b.card = 1 then a.any fun k => b = {k}
    else probeUnseen b [] a

/-- Whether one of the stages found a conflict of the transaction with the group. -/
def stageChecks (skipEmpty : Bool) (tx : Tx) (group : Group) (c : ScanCounters) :
    Bool × ScanCounters :=
  let (hit, c) :=
    if !skipEmpty || !tx.writeKeys.isEmpty then
      let c := { c with
        conflictChecks := c.conflictChecks + 1, stageWwChecks := c.stageWwChecks + 1 }
      if vecHashsetIntersects tx.writeKeys group.writeKeys then
        (true, { c with conflictHits := c.conflictHits + 1, stageWwHits := c.stageWwHits + 1 })
      else
        let c := { c with
          conflictChecks := c.conflictChecks + 1, stageWrChecks := c.stageWrChecks + 1 }
        if vecHashsetIntersects tx.writeKeys group.readKeys then
          (true, { c with conflictHits := c.conflictHits + 1, stageWrHits := c.stageWrHits + 1 })
        else (false, c)
    else (false, c)
  if hit then (true, c)
  else if !skipEmpty || !tx.readKeys.isEmpty then
    let c := { c with conflictChecks := c.conflictChecks + 1, stageRwChecks := c.stageRwChecks + 1 }
    if vecHashsetIntersects tx.readKeys group.writeKeys then
      (true, { c with conflictHits := c.conflictHits + 1, stageRwHits := c.stageRwHits + 1 })
    else (false, c)
  else (false, c)

/-- Where the candidates of a transaction begin, how many they are, and which one is looked at
first. -/
structure Candidates where
  minGroup : Nat
  span : Nat
  startOffset : Nat

/-- The first candidate that takes the transaction, with its index. -/
def scanCandidates (env : ScanSettings) (tx : Tx) (groups : List Group) (candidates : Candidates) :
    List Nat → ScanCounters → Option Nat × ScanCounters
  | [], c => (none, c)
  | step :: steps, c =>
    if 0 < env.scanWindow ∧ env.scanWindow ≤ step then (none, c)
    else
      let idx := candidates.minGroup + (candidates.startOffset + step) % candidates.span
      let c := { c with candidateGroupsScanned := c.candidateGroupsScanned + 1 }
      match stageChecks env.skipEmptyStageChecks tx (groups.getD idx ⟨[], ∅, ∅⟩) c with
      | (true, c) => scanCandidates env tx groups candidates steps c
      | (false, c) => (some idx, c)

/-! ## The loop -/

/-- Raise a bound above the latest group of a key. -/
def raiseAbove (latest : OrdMap U64 Nat) (minGroup : Nat) (key : U64) : Nat :=
  match latest.get key with
  | some g => max minGroup (g + 1)
  | none => minGroup

namespace DeepScan

def initial (env : ScanSettings) : DeepScan :=
  ⟨[], ∅, ∅, env.roundRobinSeed, ⟨0, 0, 0, 0, 0, 0, 0, 0, 0, 0⟩⟩

def minGroup (s : DeepScan) (tx : Tx) : Nat :=
  tx.writeKeys.foldl (fun bound key =>
    raiseAbove s.latestReaderGroup (raiseAbove s.latestWriterGroup bound key) key)
    (tx.readKeys.foldl (raiseAbove s.latestWriterGroup) 0)

def place (env : ScanSettings) (s : DeepScan) (tx : Tx) : DeepScan :=
  let minGroup := s.minGroup tx
  let span := s.groups.length - minGroup
  let turns := env.roundRobin && 1 < span
  let startOffset := if turns then s.rrCursor.toNat % span else 0
  let rrCursor := if turns then s.rrCursor + 1 else s.rrCursor
  if env.skipEmptyStageChecks && tx.readKeys.isEmpty && tx.writeKeys.isEmpty && 0 < span then
    { s with groups := s.groups.modify minGroup fun g => { g with txs := g.txs ++ [tx] }, rrCursor }
  else
    match scanCandidates env tx s.groups ⟨minGroup, span, startOffset⟩ (List.range span)
      s.counters with
    | (some idx, counters) =>
      { groups := s.groups.modify idx fun g =>
          ⟨g.txs ++ [tx], g.readKeys ∪ tx.readKeys.toFinset, g.writeKeys ∪ tx.writeKeys.toFinset⟩
        latestReaderGroup := recordGroup idx s.latestReaderGroup tx.readKeys
        latestWriterGroup := recordGroup idx s.latestWriterGroup tx.writeKeys
        rrCursor, counters }
    | (none, counters) =>
      let idx := s.groups.length
      { groups := s.groups ++ [⟨[tx], tx.readKeys.toFinset, tx.writeKeys.toFinset⟩]
        latestReaderGroup := recordGroup idx s.latestReaderGroup tx.readKeys
        latestWriterGroup := recordGroup idx s.latestWriterGroup tx.writeKeys
        rrCursor
        counters := { counters with
          retryFallbackNewGroups := counters.retryFallbackNewGroups + if 0 < span then 1 else 0 } }

end DeepScan

def deepScanProfile (originalTxs : List Tx) (s : DeepScan) : GroupingProfile :=
  { txCount := originalTxs.length
    groupCount := s.groups.length
    groupedCount := (s.groups.map (·.txs.length)).sum
    maxGroupSize := (s.groups.map (·.txs.length)).max?.getD 0
    minGroupSize := (s.groups.map (·.txs.length)).min?.getD 0
    conflictChecks := s.counters.conflictChecks
    conflictHits := s.counters.conflictHits }

/-- The deep scan; `access_map_capacity_hint` asserts the versions of every transaction of the
batch. -/
def buildParallelGroupsDeepScan (env : ScanSettings) (originalTxs ordered : List Tx) :
    Except Panic (List (List Tx) × GroupingProfile × ScanCounters) := do
  assertConsistentBatch originalTxs
  let s := ordered.foldl (DeepScan.place env) (.initial env)
  return (s.groups.map Group.txs, deepScanProfile originalTxs s, s.counters)

/-! ## What the probes decide -/

theorem probeUnseen_iff (hseen : ∀ k ∈ seen, k ∉ b) :
    probeUnseen b seen a = true ↔ ∃ k ∈ a, k ∈ b := by
  induction a generalizing seen with
  | nil => simp [probeUnseen]
  | cons k a ih =>
    rw [probeUnseen, List.exists_mem_cons_iff]
    split
    · next hk => rw [ih hseen, or_iff_right (hseen k (List.contains_iff_mem.mp hk))]
    · split
      · next hk => simp [hk]
      · next hk =>
        rw [ih (List.forall_mem_append.mpr ⟨hseen, List.forall_mem_singleton.mpr hk⟩),
          or_iff_right hk]

/-- The fast paths leave the answer as it is. -/
theorem vecHashsetIntersects_iff : vecHashsetIntersects a b = true ↔ ∃ k ∈ a, k ∈ b := by
  unfold vecHashsetIntersects
  split
  · simp
  · simp
  · split_ifs with hempty hcard
    · simp [hempty]
    · obtain ⟨only, rfl⟩ := Finset.card_eq_one.mp hcard
      simp only [List.any_eq_true, decide_eq_true_eq, Finset.singleton_inj, Finset.mem_singleton]
      exact exists_congr fun k => and_congr_right fun _ => eq_comm
    · exact probeUnseen_iff (by simp)

/-- The transaction writes a key of the group or reads one that the group writes. -/
def Meets (tx : Tx) (g : Group) : Prop :=
  (∃ k ∈ tx.writeKeys, k ∈ g.writeKeys) ∨ (∃ k ∈ tx.writeKeys, k ∈ g.readKeys) ∨ ∃ k ∈ tx.readKeys,
    k ∈ g.writeKeys

section
variable {env : ScanSettings} {tx : Tx} {g : Group} {s : DeepScan} {groups : List Group}
  {placed : List Tx}

/-- The stages that are skipped have nothing to look up. -/
theorem stageChecks_fst : (stageChecks skipEmpty tx g c).1 = true ↔ Meets tx g := by
  have hwrite (b : Finset U64) (h : tx.writeKeys = []) :
    vecHashsetIntersects tx.writeKeys b = false := by rw [h]; rfl
  have hread (b : Finset U64) (h : tx.readKeys = []) :
    vecHashsetIntersects tx.readKeys b = false := by rw [h]; rfl
  unfold stageChecks Meets
  simp only [← vecHashsetIntersects_iff]
  cases hww : vecHashsetIntersects tx.writeKeys g.writeKeys <;>
    cases hwr : vecHashsetIntersects tx.writeKeys g.readKeys <;>
      cases hrw : vecHashsetIntersects tx.readKeys g.writeKeys <;>
        by_cases hw : tx.writeKeys = [] <;> by_cases hr : tx.readKeys = [] <;>
        cases skipEmpty <;> simp_all

/-- A candidate that takes the transaction is one of the groups looked at, and holds no key that
conflicts with it. -/
theorem scanCandidates_some (h : scanCandidates env tx groups candidates steps c = (some idx, c')) :
    (∃ step ∈ steps, idx = candidates.minGroup +
      (candidates.startOffset + step) % candidates.span) ∧
      ¬ Meets tx (groups.getD idx ⟨[], ∅, ∅⟩) := by
  induction steps generalizing c with
  | nil => cases h
  | cons step steps ih =>
    rw [scanCandidates] at h
    split at h
    · cases h
    · dsimp only at h
      split at h
      · obtain ⟨⟨step', hstep', hidx⟩, hfree⟩ := ih h
        exact ⟨⟨step', .tail _ hstep', hidx⟩, hfree⟩
      · next hstage =>
        cases h
        refine ⟨⟨step, List.mem_cons_self, rfl⟩, fun hmeets => ?_⟩
        rw [← stageChecks_fst, hstage] at hmeets
        cases hmeets

/-! ## The groups -/

/-- The keys of the group are at least those of its transactions, and no two of them conflict. -/
structure Group.Apart (g : Group) : Prop where
  reads : ∀ tx ∈ g.txs, ∀ k ∈ tx.readKeys, k ∈ g.readKeys
  writes : ∀ tx ∈ g.txs, ∀ k ∈ tx.writeKeys, k ∈ g.writeKeys
  apart : g.txs.Pairwise fun a b => ¬ a.Conflicts b ∧ ¬ b.Conflicts a

theorem Group.Apart.not_conflicts (h : g.Apart) (hfree : ¬ Meets tx g) (ha : a ∈ g.txs) :
    ¬ a.Conflicts tx ∧ ¬ tx.Conflicts a := by
  obtain ⟨hww, hwr, hrw⟩ : (∀ k ∈ tx.writeKeys, k ∉ g.writeKeys) ∧
      (∀ k ∈ tx.writeKeys, k ∉ g.readKeys) ∧ ∀ k ∈ tx.readKeys, k ∉ g.writeKeys := by
    simpa [Meets, not_or] using hfree
  constructor
  · rintro (⟨k, hk, hk'⟩ | ⟨k, hk, hk'⟩ | ⟨k, hk, hk'⟩)
    · exact hww k hk' (h.writes a ha k hk)
    · exact hrw k hk' (h.writes a ha k hk)
    · exact hwr k hk' (h.reads a ha k hk)
  · rintro (⟨k, hk, hk'⟩ | ⟨k, hk, hk'⟩ | ⟨k, hk, hk'⟩)
    · exact hww k hk (h.writes a ha k hk')
    · exact hwr k hk (h.reads a ha k hk')
    · exact hrw k hk (h.writes a ha k hk')

/-- A group that the transaction does not meet takes it, with its keys. -/
theorem Group.Apart.push (h : g.Apart) (hfree : ¬ Meets tx g) {readKeys writeKeys : Finset U64}
    (hreads : ∀ k, k ∈ readKeys ↔ k ∈ g.readKeys ∨ k ∈ tx.readKeys)
    (hwrites : ∀ k, k ∈ writeKeys ↔ k ∈ g.writeKeys ∨ k ∈ tx.writeKeys) :
    Group.Apart ⟨g.txs ++ [tx], readKeys, writeKeys⟩ where
  reads := List.forall_mem_append.mpr ⟨fun a ha k hk => (hreads k).mpr (.inl (h.reads a ha k hk)),
    List.forall_mem_singleton.mpr fun k hk => (hreads k).mpr (.inr hk)⟩
  writes := List.forall_mem_append.mpr ⟨fun a ha k hk =>
    (hwrites k).mpr (.inl (h.writes a ha k hk)),
    List.forall_mem_singleton.mpr fun k hk => (hwrites k).mpr (.inr hk)⟩
  apart := List.pairwise_append.mpr ⟨h.apart, List.pairwise_singleton _ _, fun a ha b hb => by
    obtain rfl := List.mem_singleton.mp hb
    exact h.not_conflicts hfree ha⟩

/-- What the loop keeps: every group is apart, and the groups hold the transactions placed so
far. -/
structure Scanned (groups : List Group) (placed : List Tx) : Prop where
  apart : ∀ g ∈ groups, g.Apart
  all : (groups.flatMap Group.txs).Perm placed

theorem Scanned.modify (h : Scanned groups placed) (hidx : idx < groups.length)
    (hapart : (f (groups.getD idx ⟨[], ∅, ∅⟩)).Apart) (htxs : ∀ g, (f g).txs = g.txs ++ [tx]) :
    Scanned (groups.modify idx f) (placed ++ [tx]) := by
  obtain ⟨front, g, back, rfl, rfl, hmodify⟩ := List.exists_of_modify f hidx
  have hget : (front ++ g :: back).getD front.length ⟨[], ∅, ∅⟩ = g := by simp
  rw [hget] at hapart
  rw [hmodify]
  constructor
  · obtain ⟨hfront, hrest⟩ := List.forall_mem_append.mp h.apart
    exact List.forall_mem_append.mpr ⟨hfront, List.forall_mem_cons.mpr ⟨hapart,
      (List.forall_mem_cons.mp hrest).2⟩⟩
  · have hall := h.all
    simp only [List.flatMap_append, List.flatMap_cons] at hall ⊢
    rw [htxs]
    refine .trans ?_ (hall.append_right [tx])
    simp only [List.append_assoc]
    exact .append_left _ (.append_left _ List.perm_append_comm)

theorem Scanned.snoc (h : Scanned groups placed) (hapart : Group.Apart g) (htxs : g.txs = [tx]) :
    Scanned (groups ++ [g]) (placed ++ [tx]) where
  apart := List.forall_mem_append.mpr ⟨h.apart, List.forall_mem_singleton.mpr hapart⟩
  all := by simpa [htxs] using h.all.append_right [tx]

theorem Scanned.getD (h : Scanned groups placed) (idx : Nat) :
    (groups.getD idx ⟨[], ∅, ∅⟩).Apart := by
  rw [List.getD_eq_getElem?_getD]
  cases hget : groups[idx]? with
  | none => exact ⟨by simp, by simp, .nil⟩
  | some g => exact h.apart g (List.mem_of_getElem? hget)

/-- One turn of the loop puts the transaction into one group, and that group stays apart. -/
theorem Scanned.place (h : Scanned s.groups placed) :
    Scanned (s.place env tx).groups (placed ++ [tx]) := by
  unfold DeepScan.place
  extract_lets minGroup span turns startOffset rrCursor
  split
  · next hempty =>
    simp only [Bool.and_eq_true, List.isEmpty_iff, decide_eq_true_eq] at hempty
    obtain ⟨⟨⟨-, hr⟩, hw⟩, hspan⟩ := hempty
    have hfree : ¬ Meets tx (s.groups.getD minGroup ⟨[], ∅, ∅⟩) := by simp [Meets, hr, hw]
    exact h.modify (by omega) ((h.getD minGroup).push hfree (by simp [hr]) (by simp [hw])) fun _ =>
      rfl
  · split
    · next idx counters hscan =>
      obtain ⟨⟨step, hstep, hidx⟩, hfree⟩ := scanCandidates_some hscan
      have hspan : 0 < span := Nat.zero_lt_of_lt (List.mem_range.mp hstep)
      have hlt : (startOffset + step) % span < span := Nat.mod_lt _ hspan
      exact h.modify (by simp only at hidx; omega) ((h.getD idx).push hfree (by simp) (by simp))
        fun _ => rfl
    · exact h.snoc ⟨by simp, by simp, List.pairwise_singleton _ _⟩ rfl

theorem scanned_foldl (txs : List Tx) (h : Scanned s.groups placed) :
    Scanned (txs.foldl (DeepScan.place env) s).groups (placed ++ txs) := by
  induction txs generalizing s placed with
  | nil => simpa using h
  | cons tx txs ih => simpa using ih h.place

end

/-- For all settings the deep scan places every transaction of a consistent batch in exactly one
group, and no group holds two that conflict. -/
theorem deepScan_safe (env : ScanSettings) (originalTxs ordered : List Tx)
    (hordered : ordered.Perm originalTxs) (hconsistent : ∀ tx ∈ originalTxs, tx.Consistent) :
    ∃ groups profile counters,
      buildParallelGroupsDeepScan env originalTxs ordered = .ok (groups, profile, counters) ∧
      groups.flatten.Perm originalTxs ∧
      ∀ group ∈ groups, group.Pairwise fun a b =>
        detectConflict a b = .ok false ∧ detectConflict b a = .ok false := by
  have hscanned : Scanned (ordered.foldl (DeepScan.place env) (.initial env)).groups ordered :=
    @scanned_foldl _ _ [] ordered ⟨fun g hg => absurd hg List.not_mem_nil, .nil⟩
  refine ⟨_, _, _, by rw [buildParallelGroupsDeepScan,
    assertConsistentBatch_of_consistent hconsistent]; rfl, ?_, ?_⟩
  · rw [← List.flatMap_def]
    exact hscanned.all.trans hordered
  · rw [List.forall_mem_map]
    intro g hg
    have hmem : ∀ tx ∈ g.txs, tx.Consistent := fun tx htx =>
      hconsistent tx ((hscanned.all.trans hordered).subset (List.mem_flatMap.mpr ⟨g, hg, htx⟩))
    refine (hscanned.apart g hg).apart.imp_of_mem fun {a b} ha hb hapart => ?_
    rw [detectConflict_eq (hmem a ha) (hmem b hb), detectConflict_eq (hmem b hb) (hmem a ha)]
    exact ⟨congrArg _ (decide_eq_false hapart.1), congrArg _ (decide_eq_false hapart.2)⟩

/-- A batch with two writers of one object, a reader of it and a transaction without accesses,
scanned in turns through a window of one group. -/
def sampleScan : List Tx :=
  [⟨1, [], [⟨7, 1⟩], []⟩, ⟨2, [⟨7, 1⟩], [⟨8, 1⟩], []⟩, ⟨3, [], [], []⟩, ⟨4, [⟨9, 2⟩], [⟨7, 2⟩], []⟩]

theorem sampleScan_safe : ∃ groups profile counters,
    buildParallelGroupsDeepScan ⟨1, true, true, 3⟩ sampleScan sampleScan =
      .ok (groups, profile, counters) ∧
    groups.flatten.Perm sampleScan ∧
    ∀ group ∈ groups, group.Pairwise fun a b =>
      detectConflict a b = .ok false ∧ detectConflict b a = .ok false :=
  deepScan_safe ⟨1, true, true, 3⟩ sampleScan sampleScan (.refl _) (by decide)

end Trillionnium.Executor
