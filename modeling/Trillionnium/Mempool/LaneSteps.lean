import Trillionnium.Mempool.LaneGate

/-!
# What the calls of the lane gate do

`Synced` says that the three sets are the contents of the queues. On such a gate no repair branch
changes anything, and `Step` says all that a call does.
-/

namespace Trillionnium.Mempool

open Lib LaneAdmissionGate

inductive LaneCall
  | admitTx (txId : U64) (ingress : IngressClass)
  | popReady
  deriving DecidableEq

inductive LaneReply
  | admitted (out : AdmitOutcome)
  | popped (id : Option U64)

namespace LaneAdmissionGate

def perform (g : LaneAdmissionGate) : LaneCall → LaneReply × LaneAdmissionGate
  | .admitTx txId ingress =>
    let (out, g) := g.admitTx txId ingress
    (.admitted out, g)
  | .popReady =>
    let (id, g) := g.popReady
    (.popped id, g)

def lane (g : LaneAdmissionGate) : IngressClass → AdmissionGate
  | .normal => g.normal
  | .critical => g.critical

def setLane (g : LaneAdmissionGate) (l : IngressClass) (a : AdmissionGate) : LaneAdmissionGate :=
  match l with
  | .normal => { g with normal := a }
  | .critical => { g with critical := a }

def queued (g : LaneAdmissionGate) : List U64 := g.normal.queue ++ g.critical.queue

end LaneAdmissionGate

structure Synced (g : LaneAdmissionGate) : Prop where
  laneSeen : ∀ l, (g.lane l).seen = (g.lane l).queue.toFinset
  globalSeen : g.seenGlobal = g.queued.toFinset
  nodup : g.queued.Nodup
  laneFits : ∀ l, (g.lane l).queue.length ≤ (g.lane l).capacity
  capacities : g.normal.capacity + g.critical.capacity = g.totalCapacity
  addressable : g.totalCapacity ≤ usizeMax
  idle : g.queued = [] → g.criticalServedStreak = 0

theorem synced_new (totalCapacity criticalReserve : U64) :
    Synced (new totalCapacity criticalReserve) where
  laneSeen := by rintro (_ | _) <;> rfl
  globalSeen := rfl
  nodup := .nil
  laneFits := by rintro (_ | _) <;> exact Nat.zero_le _
  capacities := Nat.sub_add_cancel (min_le_right _ _)
  addressable := Nat.le_sub_one_of_lt totalCapacity.isLt
  idle := fun _ => rfl

/-- An idle reset of a gate without stale ids is one of the streak. -/
theorem resetIdleState_eq {g : LaneAdmissionGate}
    (h : g.normal.seen = ∅ ∧ g.critical.seen = ∅ ∧ g.seenGlobal = ∅) (preserve : Bool) :
    g.resetIdleState preserve = { g with criticalServedStreak := 0 } := by
  simp only [resetIdleState, h, and_self, or_true, not_true_eq_false, if_false]
  split
  · rfl
  · next hzero => rw [← not_not.mp hzero, ← h.2.2]

namespace Synced
variable {g : LaneAdmissionGate} {txId : U64} {ingress : IngressClass}

/-! ## The repairs find nothing to repair -/

variable (h : Synced g)
include h

theorem normalSeen : g.normal.seen = g.normal.queue.toFinset := h.laneSeen .normal

theorem criticalSeen : g.critical.seen = g.critical.queue.toFinset :=
  h.laneSeen .critical

theorem length_queued_le : g.queued.length ≤ g.totalCapacity := by
  rw [queued, List.length_append, ← h.capacities]
  exact Nat.add_le_add (h.laneFits .normal) (h.laneFits .critical)

theorem laneTotal_eq : g.laneTotal = g.queued.length := by
  rw [laneTotal, usizeAdd, ← List.length_append]
  exact min_eq_left (h.length_queued_le.trans h.addressable)

theorem laneIsIdle_eq : g.laneIsIdle = decide (g.queued = []) := by
  simp [laneIsIdle, h.laneTotal_eq]

theorem queued_eq_nil (hzero : g.totalCapacity = 0) : g.queued = [] := by
  have hle := h.length_queued_le
  rw [hzero, Nat.le_zero] at hle
  exact List.length_eq_zero_iff.mp hle

theorem card_normalSeen : g.normal.seen.card = g.normal.queue.length := by
  rw [h.normalSeen, List.toFinset_card_of_nodup (List.nodup_append.mp h.nodup).1]

theorem card_criticalSeen : g.critical.seen.card = g.critical.queue.length := by
  rw [h.criticalSeen, List.toFinset_card_of_nodup (List.nodup_append.mp h.nodup).2.1]

theorem laneLocalSeenTotal_eq : g.laneLocalSeenTotal = g.laneTotal := by
  rw [laneLocalSeenTotal, laneTotal, h.card_normalSeen, h.card_criticalSeen]

theorem card_seenGlobal : g.seenGlobal.card = g.laneTotal := by
  rw [h.laneTotal_eq, h.globalSeen, List.toFinset_card_of_nodup h.nodup]

theorem sets_eq_empty (hidle : g.queued = []) :
    g.normal.seen = ∅ ∧ g.critical.seen = ∅ ∧ g.seenGlobal = ∅ := by
  obtain ⟨hnormal, hcritical⟩ := List.append_eq_nil_iff.mp hidle
  simp [h.normalSeen, h.criticalSeen, h.globalSeen, hidle, hnormal, hcritical]

theorem resetIdleState_self (hidle : g.queued = []) (preserve : Bool) :
    g.resetIdleState preserve = g := by
  rw [resetIdleState_eq (h.sets_eq_empty hidle), ← h.idle hidle]

theorem syncSeen_eq : g.syncSeen g.laneTotal g.laneIsIdle = g := by
  rw [syncSeen, h.laneLocalSeenTotal_eq, h.card_seenGlobal, h.laneIsIdle_eq]
  by_cases hidle : g.queued = []
  · simp [hidle, h.resetIdleState_self hidle]
  · simp [hidle]

theorem mem_seen : txId ∈ g.queued ↔ txId ∈ g.normal.seen ∨ txId ∈ g.critical.seen := by
  simp [queued, h.normalSeen, h.criticalSeen]

theorem queuesContainTx_eq :
    g.queuesContainTx txId (txId ∈ g.normal.seen) (txId ∈ g.critical.seen) =
      decide (txId ∈ g.queued) := by
  simp only [queuesContainTx, queued, h.normalSeen, h.criticalSeen, List.mem_toFinset,
    List.mem_append]
  by_cases hnormal : txId ∈ g.normal.queue <;> by_cases hcritical : txId ∈ g.critical.queue <;>
    simp [hnormal, hcritical]

theorem probeGlobal_eq : g.probeGlobal txId g.laneIsIdle = (decide (txId ∈ g.queued), g) := by
  simp only [probeGlobal, h.queuesContainTx_eq, h.laneIsIdle_eq, h.globalSeen, List.mem_toFinset]
  by_cases hid : txId ∈ g.queued
  · have hbusy : g.queued ≠ [] := List.ne_nil_of_mem hid
    have hseen : ¬ (txId ∉ g.normal.seen ∧ txId ∉ g.critical.seen) :=
      not_and_or.mpr ((h.mem_seen.mp hid).imp not_not.mpr not_not.mpr)
    simp [hid, hbusy, hseen]
  · simp [hid]

theorem probeLocal_eq : g.probeLocal txId g.laneTotal g.laneIsIdle (decide (txId ∈ g.queued)) =
      (decide (txId ∈ g.queued), g) := by
  by_cases hid : txId ∈ g.queued
  · simp [probeLocal, hid]
  · have hseen : ¬ (txId ∈ g.normal.seen ∨ txId ∈ g.critical.seen) := h.mem_seen.not.mp hid
    obtain ⟨hnormal, hcritical⟩ := not_or.mp hseen
    simp [probeLocal, hid, hnormal, hcritical, h.laneLocalSeenTotal_eq]

end Synced

/-! ## Steps -/

namespace LaneAdmissionGate

def store (g : LaneAdmissionGate) (l : IngressClass) (id : U64) (streak : Nat) :
    LaneAdmissionGate :=
  { g.setLane l ⟨(g.lane l).capacity, (g.lane l).queue ++ [id], insert id (g.lane l).seen⟩ with
    seenGlobal := insert id g.seenGlobal
    criticalServedStreak := streak }

/-- The gate with the rest of a lane after its first id. -/
def drain (g : LaneAdmissionGate) (l : IngressClass) (id : U64) (rest : List U64) (streak : Nat) :
    LaneAdmissionGate :=
  { g.setLane l ⟨(g.lane l).capacity, rest, (g.lane l).seen.erase id⟩ with
    seenGlobal := g.seenGlobal.erase id
    criticalServedStreak := streak }

def servedLane (g : LaneAdmissionGate) : IngressClass :=
  if g.preferNormalOnPop ∨ g.critical.queue = [] then .normal else .critical

/-- The streak that `record_pop_fairness` leaves. -/
def recordedStreak (g : LaneAdmissionGate) (servedCritical : Bool) : Nat :=
  if g.normalHasDedicatedCapacity then
    if servedCritical then min (usizeAdd g.criticalServedStreak 1) g.criticalBurstLimit
    else if g.normal.queue ≠ [] ∧ g.critical.queue ≠ [] then g.criticalBurstLimit - 1
    else 0
  else 0

end LaneAdmissionGate

/-- The effect of a call on a gate whose sets are right. -/
inductive LaneStep (g : LaneAdmissionGate) : LaneCall → LaneReply → LaneAdmissionGate → Prop
  | duplicate {txId : U64} {ingress : IngressClass} (hid : txId ∈ g.queued) :
      LaneStep g (.admitTx txId ingress) (.admitted .duplicate) g
  | backpressured {txId : U64} {ingress : IngressClass} (hid : txId ∉ g.queued)
      (hblocked : g.freshAdmissible ingress = false) :
      LaneStep g (.admitTx txId ingress) (.admitted .backpressured) g
  | accepted {txId : U64} {ingress l : IngressClass} {streak : Nat} (hid : txId ∉ g.queued)
      (hfresh : g.freshAdmissible ingress = true)
      (hroom : (g.lane l).queue.length < (g.lane l).capacity) :
      LaneStep g (.admitTx txId ingress) (.admitted .accepted) (g.store l txId streak)
  | idle (hidle : g.queued = []) : LaneStep g .popReady (.popped none) g
  | popped {l : IngressClass} {id : U64} {rest : List U64} {streak : Nat}
      (hqueue : (g.lane l).queue = id :: rest)
      (hstreak : (g.drain l id rest streak).queued = [] → streak = 0) :
      LaneStep g .popReady (.popped (some id)) (g.drain l id rest streak)

section
variable {g : LaneAdmissionGate} {l : IngressClass} {id : U64} {rest : List U64} {streak : Nat}

/-! ## The sets stay right -/

theorem queued_store_perm : (g.store l id streak).queued.Perm (id :: g.queued) := by
  cases l with
  | normal =>
    change ((g.normal.queue ++ [id]) ++ g.critical.queue).Perm _
    rw [List.append_assoc]
    exact List.perm_middle
  | critical =>
    change (g.normal.queue ++ (g.critical.queue ++ [id])).Perm _
    rw [← List.append_assoc]
    exact List.perm_append_singleton _ _

theorem queued_drain_perm (hqueue : (g.lane l).queue = id :: rest) :
    g.queued.Perm (id :: (g.drain l id rest streak).queued) := by
  cases l with
  | normal =>
    change g.normal.queue = _ at hqueue
    rw [queued, hqueue]
    exact .refl _
  | critical =>
    change g.critical.queue = _ at hqueue
    rw [queued, hqueue]
    exact List.perm_middle

theorem lane_store : (g.store l id streak).lane l' =
    if l = l' then ⟨(g.lane l).capacity, (g.lane l).queue ++ [id], insert id (g.lane l).seen⟩
    else g.lane l' := by
  cases l <;> cases l' <;> rfl

theorem lane_drain : (g.drain l id rest streak).lane l' =
    if l = l' then ⟨(g.lane l).capacity, rest, (g.lane l).seen.erase id⟩ else g.lane l' := by
  cases l <;> cases l' <;> rfl

theorem Synced.nodup_lane (h : Synced g) : (g.lane l).queue.Nodup := by
  obtain ⟨hnormal, hcritical, -⟩ := List.nodup_append.mp h.nodup
  cases l with
  | normal => exact hnormal
  | critical => exact hcritical

theorem Synced.store (h : Synced g) (hid : id ∉ g.queued)
    (hroom : (g.lane l).queue.length < (g.lane l).capacity) : Synced (g.store l id streak) where
  laneSeen := by
    intro l'
    rw [lane_store]
    split
    · simp [h.laneSeen l]
    · exact h.laneSeen l'
  globalSeen := by
    rw [List.toFinset_eq_of_perm _ _ queued_store_perm, List.toFinset_cons, ← h.globalSeen]
    rfl
  nodup := queued_store_perm.nodup_iff.mpr (List.nodup_cons.mpr ⟨hid, h.nodup⟩)
  laneFits := by
    intro l'
    rw [lane_store]
    split
    · simpa [Nat.succ_le_iff] using hroom
    · exact h.laneFits l'
  capacities := by cases l <;> exact h.capacities
  addressable := by cases l <;> exact h.addressable
  idle := by
    intro hidle
    have hperm : (g.store l id streak).queued.Perm (id :: g.queued) := queued_store_perm
    simp [hidle] at hperm

theorem Synced.drain (h : Synced g) (hqueue : (g.lane l).queue = id :: rest)
    (hstreak : (g.drain l id rest streak).queued = [] → streak = 0) :
    Synced (g.drain l id rest streak) := by
  have hperm : g.queued.Perm (id :: (g.drain l id rest streak).queued) := queued_drain_perm hqueue
  have hnodup := List.nodup_cons.mp (hperm.nodup_iff.mp h.nodup)
  have hlane := h.nodup_lane (l := l)
  rw [hqueue] at hlane
  refine ⟨fun l' => ?_, ?_, hnodup.2, fun l' => ?_, ?_, ?_, hstreak⟩
  · rw [lane_drain]
    split
    · simp [h.laneSeen l, hqueue, (List.nodup_cons.mp hlane).1]
    · exact h.laneSeen l'
  · change g.seenGlobal.erase id = _
    rw [h.globalSeen, List.toFinset_eq_of_perm _ _ hperm, List.toFinset_cons,
      Finset.erase_insert (by simpa using hnodup.1)]
  · rw [lane_drain]
    have hfits := h.laneFits l
    split
    · rw [hqueue, List.length_cons] at hfits
      exact Nat.le_of_succ_le hfits
    · exact h.laneFits l'
  · cases l <;> exact h.capacities
  · cases l <;> exact h.addressable

theorem LaneStep.synced (hg : Synced g) (h : LaneStep g call reply g') : Synced g' := by
  cases h with
  | duplicate | backpressured | idle => exact hg
  | accepted hid _ hroom => exact hg.store hid hroom
  | popped hqueue hstreak => exact hg.drain hqueue hstreak

end

section
variable {g : LaneAdmissionGate} {txId : U64} {ingress : IngressClass}

/-! ## The answer of an admission -/

theorem classifyHeadroomProbe_eq (isDuplicate : Bool) :
    g.classifyHeadroomProbe g.laneTotal ingress isDuplicate = if isDuplicate then some .duplicate
      else if g.freshAdmissible ingress then none else some .backpressured := by
  unfold classifyHeadroomProbe classifyGuardedProbe laneIsGloballySaturated
    reserveSlotGuardBlocksWithLaneTotal freshAdmissible
  cases isDuplicate with
  | true => rfl
  | false =>
    cases hroom : g.laneHasGlobalHeadroom g.laneTotal <;>
      cases hguard : g.laneBackpressureGuardBlocks ingress <;> simp [classifyDuplicateProbe]

/-- The gate of a lane accepts an id that it has not seen if it has room. -/
theorem AdmissionGate.admit_eq {a : AdmissionGate} (hid : txId ∉ a.seen) :
    a.admitTx txId = if a.queue.length < a.capacity then
      (.accepted, ⟨a.capacity, a.queue ++ [txId], insert txId a.seen⟩)
        else (.backpressured, a) := by
  unfold AdmissionGate.admitTx
  by_cases hroom : a.queue.length < a.capacity
  · simp [hroom, hid, not_le.mpr hroom]
  · simp [hroom, hid, not_lt.mp hroom]

theorem maybeWarmNormalFairness_eq (normalWasEmpty : Bool) (out : AdmitOutcome) :
    ∃ streak, g.maybeWarmNormalFairness normalWasEmpty out =
      { g with criticalServedStreak := streak } := by
  unfold maybeWarmNormalFairness
  split
  · exact ⟨_, rfl⟩
  · exact ⟨g.criticalServedStreak, rfl⟩

theorem criticalHasRoom_of_borrow (h : g.normalCanBorrowCriticalHeadroom = true) :
    g.critical.queue.length < g.critical.capacity := by
  have hfree : 0 < g.criticalFreeSlots := by
    unfold normalCanBorrowCriticalHeadroom at h
    split at h
    · simpa [criticalHasBorrowableHeadroom] using h
    · split at h
      · next hlast =>
        simp only [normalCanBorrowLastIdleCriticalSlot, Bool.and_eq_true,
          decide_eq_true_eq] at hlast
        omega
      · simp only [normalHasSurplusCriticalHeadroom, decide_eq_true_eq] at h
        omega
  unfold criticalFreeSlots at hfree
  omega

/-- A class that is admissible finds room in its own lane or in the other one. -/
theorem admitToLanes_eq (h : Synced g) (hid : txId ∉ g.queued)
    (hfresh : g.freshAdmissible ingress = true) : ∃ l streak,
      (g.lane l).queue.length < (g.lane l).capacity ∧ g.admitToLanes txId ingress =
        (.accepted, { g.store l txId streak with seenGlobal := g.seenGlobal }) := by
  obtain ⟨hnormal, hcritical⟩ := not_or.mp (h.mem_seen.not.mp hid)
  have hguard : g.laneBackpressureGuardBlocks ingress = false := by
    simpa using (Bool.and_eq_true_iff.mp hfresh).2
  have hwarm : ∀ l, ∃ streak, (g.setLane l ⟨(g.lane l).capacity, (g.lane l).queue ++ [txId],
      insert txId (g.lane l).seen⟩).maybeWarmNormalFairness (decide (g.normal.queue = []))
        .accepted = { g.store l txId streak with seenGlobal := g.seenGlobal } := by
    intro l
    obtain ⟨streak, hstreak⟩ := maybeWarmNormalFairness_eq (g := g.setLane l _) _ _
    exact ⟨streak, by rw [hstreak]; cases l <;> rfl⟩
  cases ingress with
  | normal =>
    by_cases hroom : g.normal.queue.length < g.normal.capacity
    · obtain ⟨streak, hstreak⟩ := hwarm .normal
      refine ⟨.normal, streak, hroom, ?_⟩
      rw [admitToLanes, AdmissionGate.admit_eq hnormal, if_pos hroom]
      exact congrArg (Prod.mk _) hstreak
    · have hborrow : g.normalCanBorrowCriticalHeadroom = true := by
        simpa [laneBackpressureGuardBlocks, normalHasAdmissionHeadroom, normalQueueHasHeadroom,
          hroom] using hguard
      have hslot := criticalHasRoom_of_borrow hborrow
      obtain ⟨streak, hstreak⟩ := hwarm .critical
      refine ⟨.critical, streak, hslot, ?_⟩
      rw [admitToLanes, AdmissionGate.admit_eq hnormal, if_neg hroom]
      dsimp only
      rw [if_pos ⟨rfl, hborrow⟩, AdmissionGate.admit_eq hcritical, if_pos hslot]
      exact congrArg (Prod.mk _) hstreak
  | critical =>
    by_cases hroom : g.critical.queue.length < g.critical.capacity
    · obtain ⟨streak, hstreak⟩ := hwarm .critical
      refine ⟨.critical, streak, hroom, ?_⟩
      rw [admitToLanes, AdmissionGate.admit_eq hcritical, if_pos hroom]
      exact congrArg (Prod.mk _) hstreak
    · have hborrow : g.criticalCanBorrowNormalHeadroom = true := by
        simpa [laneBackpressureGuardBlocks, criticalHasAdmissionHeadroom, criticalQueueHasHeadroom,
          hroom] using hguard
      have hslot : g.normal.queue.length < g.normal.capacity := of_decide_eq_true hborrow
      obtain ⟨streak, hstreak⟩ := hwarm .normal
      refine ⟨.normal, streak, hslot, ?_⟩
      rw [admitToLanes, AdmissionGate.admit_eq hcritical, if_neg hroom]
      dsimp only
      rw [if_pos ⟨rfl, hborrow⟩, AdmissionGate.admit_eq hnormal, if_pos hslot]
      exact congrArg (Prod.mk _) hstreak

theorem admit_step (h : Synced g) : LaneStep g (.admitTx txId ingress)
    (.admitted (g.admitTx txId ingress).1) (g.admitTx txId ingress).2 := by
  unfold admitTx
  split
  · next hzero =>
    have hidle := h.queued_eq_nil hzero
    have hid : txId ∉ g.queued := by simp [hidle]
    obtain ⟨hnormal, hcritical⟩ := not_or.mp (h.mem_seen.not.mp hid)
    have hunseen : g.seenCachesContainTx txId = false := by
      simp [seenCachesContainTx, hnormal, hcritical, h.globalSeen, hid]
    rw [hunseen]
    exact .backpressured hid (by simp [freshAdmissible, laneHasGlobalHeadroom, hzero])
  · dsimp only
    rw [h.syncSeen_eq, h.probeGlobal_eq]
    dsimp only
    rw [h.probeLocal_eq]
    dsimp only
    rw [classifyHeadroomProbe_eq]
    by_cases hid : txId ∈ g.queued
    · rw [decide_eq_true hid]
      exact .duplicate hid
    · rw [decide_eq_false hid]
      cases hfresh : g.freshAdmissible ingress with
      | false => exact .backpressured hid hfresh
      | true =>
        obtain ⟨l, streak, hroom, hadmit⟩ := admitToLanes_eq h hid hfresh
        simp only [Bool.false_eq_true, if_false, if_true, hadmit]
        exact .accepted hid hfresh hroom

/-! ## The dequeue -/

theorem AdmissionGate.popReady_cons {a : AdmissionGate} {id : U64}
    (hqueue : a.queue = id :: rest) (hseen : a.seen = a.queue.toFinset) (hnodup : a.queue.Nodup) :
    a.popReady = (some id, ⟨a.capacity, rest, a.seen.erase id⟩) := by
  have hrest : a.seen.erase id = rest.toFinset := by
    rw [hqueue] at hnodup
    rw [hseen, hqueue, List.toFinset_cons, Finset.erase_insert]
    simpa using (List.nodup_cons.mp hnodup).1
  unfold AdmissionGate.popReady
  rw [hqueue]
  dsimp only
  rw [if_neg]
  rintro ⟨rfl, hne⟩
  exact hne hrest

theorem AdmissionGate.popReady_nil {a : AdmissionGate} (hqueue : a.queue = []) :
    a.popReady = (none, a) := by
  rw [AdmissionGate.popReady, hqueue]

theorem popLane_eq (h : Synced g) (hbusy : g.queued ≠ []) : ∃ id rest,
    (g.lane g.servedLane).queue = id :: rest ∧
    g.popLane = (some (id, decide (g.servedLane = .critical)),
      { g.drain g.servedLane id rest g.criticalServedStreak with
        seenGlobal := g.seenGlobal }) := by
  by_cases hprefer : g.preferNormalOnPop
  · have hnormal : g.normal.queue ≠ [] := by
      simpa using (Bool.and_eq_true_iff.mp hprefer).2
    have hlane : g.servedLane = .normal := if_pos (.inl hprefer)
    obtain ⟨id, rest, hqueue⟩ := List.exists_cons_of_ne_nil hnormal
    rw [hlane, popLane, if_pos hprefer,
      AdmissionGate.popReady_cons hqueue h.normalSeen (h.nodup_lane (l := .normal))]
    exact ⟨id, rest, hqueue, rfl⟩
  · rw [popLane, if_neg hprefer]
    cases hcritical : g.critical.queue with
    | cons id rest =>
      have hlane : g.servedLane = .critical := if_neg (by simp [hprefer, hcritical])
      rw [hlane, AdmissionGate.popReady_cons hcritical h.criticalSeen
        (h.nodup_lane (l := .critical))]
      exact ⟨id, rest, hcritical, rfl⟩
    | nil =>
      have hlane : g.servedLane = .normal := if_pos (.inr hcritical)
      have hnormal : g.normal.queue ≠ [] := by simpa [queued, hcritical] using hbusy
      obtain ⟨id, rest, hqueue⟩ := List.exists_cons_of_ne_nil hnormal
      rw [hlane, AdmissionGate.popReady_nil hcritical]
      dsimp only
      rw [AdmissionGate.popReady_cons hqueue h.normalSeen (h.nodup_lane (l := .normal))]
      exact ⟨id, rest, hqueue, rfl⟩

/-- Fairness is all that is recorded of a dequeue. -/
theorem recordPopFairness_eq (servedCritical : Bool) : g.recordPopFairness servedCritical =
    { g with criticalServedStreak := g.recordedStreak servedCritical } := by
  unfold recordPopFairness recordedStreak
  split_ifs <;> rfl

theorem repairGlobalSeenAfterPop_eq {id : U64}
    (h : Synced g) (hqueue : (g.lane l).queue = id :: rest) :
    ({ g.drain l id rest streak with seenGlobal := g.seenGlobal }).repairGlobalSeenAfterPop id =
      g.drain l id rest streak := by
  have hsynced : Synced (g.drain l id rest 0) := h.drain hqueue fun _ => rfl
  have hperm : g.queued.Perm (id :: (g.drain l id rest 0).queued) := queued_drain_perm hqueue
  have hid : id ∈ g.seenGlobal := by simp [h.globalSeen, List.toFinset_eq_of_perm _ _ hperm]
  have hcard : ¬ (g.drain l id rest streak).seenGlobal.card ≠
      (g.drain l id rest streak).laneTotal :=
    not_not.mpr hsynced.card_seenGlobal
  unfold repairGlobalSeenAfterPop
  rw [if_neg (not_not.mpr hid)]
  exact if_neg hcard

/-- The reset after a dequeue that left the gate empty is one of the streak. -/
theorem resetIdleState_drain {id : U64} (h : Synced g) (hqueue : (g.lane l).queue = id :: rest) :
    (if (g.drain l id rest streak).normal.queue = [] ∧
      (g.drain l id rest streak).critical.queue = [] then
        (g.drain l id rest streak).resetIdleState false else g.drain l id rest streak) =
      g.drain l id rest (if (g.drain l id rest streak').queued = [] then 0 else streak) := by
  by_cases hempty : (g.drain l id rest streak).queued = []
  · have hsynced : Synced (g.drain l id rest 0) := h.drain hqueue fun _ => rfl
    have hsets : (g.drain l id rest streak).normal.seen = ∅ ∧
        (g.drain l id rest streak).critical.seen = ∅ ∧
          (g.drain l id rest streak).seenGlobal = ∅ := hsynced.sets_eq_empty hempty
    have hempty' : (g.drain l id rest streak').queued = [] := hempty
    rw [if_pos (List.append_eq_nil_iff.mp hempty), if_pos hempty', resetIdleState_eq hsets]
    rfl
  · have hempty' : (g.drain l id rest streak').queued ≠ [] := hempty
    rw [if_neg (List.append_eq_nil_iff.not.mp hempty), if_neg hempty']

/-- A dequeue takes the first id of the lane that is served. The streak is reset once the gate is
empty. -/
theorem popReady_eq (h : Synced g) (hbusy : g.queued ≠ []) : ∃ id rest streak,
    (g.lane g.servedLane).queue = id :: rest ∧
    streak = (if (g.drain g.servedLane id rest g.criticalServedStreak).queued = [] then 0 else
      (g.drain g.servedLane id rest g.criticalServedStreak).recordedStreak
        (decide (g.servedLane = .critical))) ∧
    g.popReady = (some id, g.drain g.servedLane id rest streak) := by
  obtain ⟨id, rest, hqueue, hpop⟩ := popLane_eq h hbusy
  refine ⟨id, rest, _, hqueue, rfl, ?_⟩
  have hrecord : LaneAdmissionGate.recordPopFairness
      { g.drain g.servedLane id rest g.criticalServedStreak with seenGlobal := g.seenGlobal }
      (decide (g.servedLane = .critical)) = { g.drain g.servedLane id rest
        ((g.drain g.servedLane id rest g.criticalServedStreak).recordedStreak
          (decide (g.servedLane = .critical))) with
        seenGlobal := g.seenGlobal } := recordPopFairness_eq _
  rw [popReady, h.laneIsIdle_eq, if_neg (by simp [hbusy]), hpop]
  dsimp only
  rw [hrecord, repairGlobalSeenAfterPop_eq h hqueue]
  exact congrArg (Prod.mk _) (resetIdleState_drain h hqueue)

theorem popReady_step (h : Synced g) :
    LaneStep g .popReady (.popped g.popReady.1) g.popReady.2 := by
  by_cases hidle : g.queued = []
  · rw [popReady, h.laneIsIdle_eq, if_pos (decide_eq_true hidle), h.resetIdleState_self hidle]
    exact .idle hidle
  · obtain ⟨id, rest, streak, hqueue, hstreak, hpop⟩ := popReady_eq h hidle
    rw [hpop]
    exact .popped hqueue fun hempty => hstreak.trans (if_pos hempty)

theorem perform_step (h : Synced g) (call : LaneCall) :
    LaneStep g call (g.perform call).1 (g.perform call).2 := by
  cases call with
  | admitTx txId ingress => exact admit_step h
  | popReady => exact popReady_step h

theorem freshAdmissible_qosSnapshot :
    g.qosSnapshot.freshAdmissible ingress = g.freshAdmissible ingress := by
  cases ingress <;> rfl

end

end Trillionnium.Mempool
