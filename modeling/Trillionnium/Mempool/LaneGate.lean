import Mathlib.Data.Finset.Card
import Trillionnium.Lib.Checked

/-!
# The lane admission gate

`LaneAdmissionGate` of the mempool: two bounded queues that lend each other capacity, with three
sets of the queued ids. Lengths and capacities are `usize` and stand here as natural numbers; the
saturating operations are those of a 64-bit target.
-/

namespace Trillionnium.Mempool

open Lib

inductive AdmitOutcome
  | accepted | duplicate | backpressured
  deriving DecidableEq

inductive IngressClass
  | normal | critical
  deriving DecidableEq

structure LaneQosSnapshot where
  normalQueued : Nat
  criticalQueued : Nat
  totalQueued : Nat
  normalHeadroom : Nat
  criticalHeadroom : Nat
  totalHeadroom : Nat
  freshNormalAdmissible : Bool
  freshCriticalAdmissible : Bool

/-! ## One lane -/

structure AdmissionGate where
  capacity : Nat
  queue : List U64
  seen : Finset U64

namespace AdmissionGate

def new (capacity : Nat) : AdmissionGate := ⟨capacity, [], ∅⟩

def admitTx (a : AdmissionGate) (txId : U64) : AdmitOutcome × AdmissionGate :=
  if a.capacity ≤ a.queue.length then
    (if txId ∈ a.seen then .duplicate else .backpressured, a)
  else if txId ∈ a.seen then (.duplicate, a)
  else (.accepted, { a with seen := insert txId a.seen, queue := a.queue ++ [txId] })

def popReady (a : AdmissionGate) : Option U64 × AdmissionGate :=
  match a.queue with
  | [] => (none, a)
  | id :: queue =>
    let seen := a.seen.erase id
    (some id, { a with queue, seen := if queue = [] ∧ seen ≠ ∅ then ∅ else seen })

end AdmissionGate

/-! ## Two lanes -/

structure LaneAdmissionGate where
  normal : AdmissionGate
  critical : AdmissionGate
  totalCapacity : Nat
  seenGlobal : Finset U64
  criticalServedStreak : Nat
  criticalBurstLimit : Nat
  normalHasDedicatedCapacity : Bool

namespace LaneAdmissionGate

def new (totalCapacity criticalReserve : U64) : LaneAdmissionGate :=
  let total := totalCapacity.toNat
  let reserve := min criticalReserve.toNat total
  let normalCap := total - reserve
  { normal := .new normalCap
    critical := .new reserve
    totalCapacity := total
    seenGlobal := ∅
    criticalServedStreak := 0
    criticalBurstLimit := max (usizeMul reserve 2) 1
    normalHasDedicatedCapacity := 0 < normalCap }

variable (g : LaneAdmissionGate)

/-! ### The sets of queued ids -/

def clearSeenCaches : LaneAdmissionGate :=
  { g with
    normal := { g.normal with seen := ∅ }
    critical := { g.critical with seen := ∅ }
    seenGlobal := ∅ }

def laneTotal : Nat := usizeAdd g.normal.queue.length g.critical.queue.length

def laneIsIdle : Bool := g.laneTotal = 0

def resetIdleState (preserveZeroCapacitySeen : Bool) : LaneAdmissionGate :=
  let g :=
    if ¬ ((preserveZeroCapacitySeen ∧ g.totalCapacity = 0) ∨
        (g.normal.seen = ∅ ∧ g.critical.seen = ∅ ∧ g.seenGlobal = ∅)) then g.clearSeenCaches
    else g
  if g.criticalServedStreak ≠ 0 then { g with criticalServedStreak := 0 } else g

def rebuildLaneSeenFromQueues : LaneAdmissionGate :=
  { g with
    normal := { g.normal with seen := g.normal.queue.toFinset }
    critical := { g.critical with seen := g.critical.queue.toFinset } }

def rebuildGlobalSeenFromQueues : LaneAdmissionGate :=
  { g with seenGlobal := g.normal.queue.toFinset ∪ g.critical.queue.toFinset }

def laneLocalSeenTotal : Nat := usizeAdd g.normal.seen.card g.critical.seen.card

def rebuildSeenFromQueues : LaneAdmissionGate :=
  g.rebuildLaneSeenFromQueues.rebuildGlobalSeenFromQueues

def repairGlobalSeenAfterPop (drainedId : U64) : LaneAdmissionGate :=
  if drainedId ∉ g.seenGlobal then
    if g.laneIsIdle then { g with seenGlobal := ∅ } else g.rebuildGlobalSeenFromQueues
  else
    let g := { g with seenGlobal := g.seenGlobal.erase drainedId }
    if g.seenGlobal.card ≠ g.laneTotal then
      if g.laneTotal = 0 then { g with seenGlobal := ∅ } else g.rebuildGlobalSeenFromQueues
    else g

def maybeWarmNormalFairness (normalWasEmpty : Bool) (out : AdmitOutcome) : LaneAdmissionGate :=
  if g.normalHasDedicatedCapacity ∧ out = .accepted ∧ normalWasEmpty ∧ g.normal.queue ≠ [] ∧
      g.critical.queue ≠ [] then
    { g with criticalServedStreak := g.criticalBurstLimit }
  else g

/-! ### Headroom and guards -/

def criticalFreeSlots : Nat := g.critical.capacity - g.critical.queue.length

def criticalBacklogActive : Bool := g.critical.queue ≠ []

def criticalHasBorrowableHeadroom : Bool := 0 < g.criticalFreeSlots

def normalUsesReserveOnlyMode : Bool := g.normal.capacity = 0

def normalCanBorrowLastIdleCriticalSlot : Bool :=
  !g.normalUsesReserveOnlyMode && !g.criticalBacklogActive && g.criticalFreeSlots = 1

def normalHasSurplusCriticalHeadroom : Bool := 1 < g.criticalFreeSlots

def normalCanBorrowCriticalHeadroom : Bool :=
  if g.normalUsesReserveOnlyMode then g.criticalHasBorrowableHeadroom
  else if g.normalCanBorrowLastIdleCriticalSlot then true
  else g.normalHasSurplusCriticalHeadroom

def criticalCanBorrowNormalHeadroom : Bool := g.normal.queue.length < g.normal.capacity

def queuesContainTx (txId : U64) (inNormalSeen inCriticalSeen : Bool) : Bool :=
  if inNormalSeen && inCriticalSeen then txId ∈ g.normal.queue ∨ txId ∈ g.critical.queue
  else if inNormalSeen then txId ∈ g.normal.queue
  else if inCriticalSeen then txId ∈ g.critical.queue
  else false

variable (laneTotal : Nat)

def laneHasGlobalHeadroom : Bool := laneTotal < g.totalCapacity

def laneIsGloballySaturated : Bool := !g.laneHasGlobalHeadroom laneTotal

def normalQueueHasHeadroom : Bool := g.normal.queue.length < g.normal.capacity

def criticalQueueHasHeadroom : Bool := g.critical.queue.length < g.critical.capacity

def normalHasAdmissionHeadroom : Bool :=
  g.normalQueueHasHeadroom || g.normalCanBorrowCriticalHeadroom

def criticalHasAdmissionHeadroom : Bool :=
  g.criticalQueueHasHeadroom || g.criticalCanBorrowNormalHeadroom

def laneBackpressureGuardBlocks : IngressClass → Bool
  | .normal => !g.normalHasAdmissionHeadroom
  | .critical => !g.criticalHasAdmissionHeadroom

def freshAdmissible (ingress : IngressClass) : Bool :=
  g.laneHasGlobalHeadroom g.laneTotal && !g.laneBackpressureGuardBlocks ingress

/-! ### Probes -/

def classifyDuplicateProbe (isDuplicate : Bool) : AdmitOutcome :=
  if isDuplicate then .duplicate else .backpressured

def seenCachesContainTx (txId : U64) : Bool :=
  txId ∈ g.seenGlobal ∨ txId ∈ g.normal.seen ∨ txId ∈ g.critical.seen

/-- The answer without a lane admission, when the guard blocks or the id is queued. -/
def classifyGuardedProbe (guardBlocks isDuplicate : Bool) : Option AdmitOutcome :=
  if isDuplicate then some .duplicate
  else if guardBlocks then some (classifyDuplicateProbe isDuplicate)
  else none

def reserveSlotGuardBlocksWithLaneTotal (ingress : IngressClass) : Bool :=
  g.laneBackpressureGuardBlocks ingress && g.laneHasGlobalHeadroom laneTotal

def classifyHeadroomProbe (ingress : IngressClass) (isDuplicate : Bool) :
    Option AdmitOutcome :=
  (classifyGuardedProbe (g.laneIsGloballySaturated laneTotal) isDuplicate).or
    (classifyGuardedProbe (g.reserveSlotGuardBlocksWithLaneTotal laneTotal ingress) isDuplicate)

/-! ### Admission -/

/-- The repair of the sets before the probes of `admit`. -/
def syncSeen (laneWasEmpty : Bool) : LaneAdmissionGate :=
  if laneWasEmpty then g.resetIdleState false
  else if g.laneLocalSeenTotal ≠ laneTotal then g.rebuildSeenFromQueues
  else if g.seenGlobal.card ≠ laneTotal then g.rebuildGlobalSeenFromQueues
  else g

/-- The probe of the lane-wide set. -/
def probeGlobal (txId : U64) (laneWasEmpty : Bool) : Bool × LaneAdmissionGate :=
  let isDuplicate : Bool := if laneWasEmpty then false else txId ∈ g.seenGlobal
  if isDuplicate then
    let inNormalSeen : Bool := txId ∈ g.normal.seen
    let inCriticalSeen : Bool := txId ∈ g.critical.seen
    if !inNormalSeen && !inCriticalSeen then
      let g := g.rebuildSeenFromQueues
      (txId ∈ g.seenGlobal, g)
    else if !g.queuesContainTx txId inNormalSeen inCriticalSeen then
      let g := g.rebuildSeenFromQueues
      (txId ∈ g.seenGlobal, g)
    else (isDuplicate, g)
  else (isDuplicate, g)

/-- The probe of the sets of each lane. -/
def probeLocal (txId : U64) (laneTotal : Nat) (laneWasEmpty isDuplicate : Bool) :
    Bool × LaneAdmissionGate :=
  if !isDuplicate && !laneWasEmpty then
    let inNormalSeen : Bool := txId ∈ g.normal.seen
    let inCriticalSeen : Bool := txId ∈ g.critical.seen
    if inNormalSeen || inCriticalSeen then
      if g.queuesContainTx txId inNormalSeen inCriticalSeen then
        (true, { g with seenGlobal := insert txId g.seenGlobal })
      else
        let g := g.rebuildSeenFromQueues
        (txId ∈ g.seenGlobal, g)
    else if g.laneLocalSeenTotal ≠ laneTotal ∧
        (txId ∈ g.normal.queue ∨ txId ∈ g.critical.queue) then
      let g := g.rebuildSeenFromQueues
      (txId ∈ g.seenGlobal, g)
    else (isDuplicate, g)
  else (isDuplicate, g)

/-- The lane of the class, or the other lane if that one is full and lends a slot. -/
def admitToLanes (txId : U64) : IngressClass → AdmitOutcome × LaneAdmissionGate
  | .normal =>
    let normalWasEmpty : Bool := g.normal.queue = []
    let (primary, normal) := g.normal.admitTx txId
    let g := { g with normal }
    let (out, g) :=
      if primary = .backpressured ∧ g.normalCanBorrowCriticalHeadroom then
        let (out, critical) := g.critical.admitTx txId
        (out, { g with critical })
      else (primary, g)
    (out, g.maybeWarmNormalFairness normalWasEmpty out)
  | .critical =>
    let normalWasEmpty : Bool := g.normal.queue = []
    let (primary, critical) := g.critical.admitTx txId
    let g := { g with critical }
    let (out, g) :=
      if primary = .backpressured ∧ g.criticalCanBorrowNormalHeadroom then
        let (out, normal) := g.normal.admitTx txId
        (out, { g with normal })
      else (primary, g)
    (out, g.maybeWarmNormalFairness normalWasEmpty out)

def finishAdmission (txId : U64) (out : AdmitOutcome) : AdmitOutcome × LaneAdmissionGate :=
  (out, if out = .accepted then { g with seenGlobal := insert txId g.seenGlobal } else g)

def admitTx (txId : U64) (ingress : IngressClass) : AdmitOutcome × LaneAdmissionGate :=
  if g.totalCapacity = 0 then (classifyDuplicateProbe (g.seenCachesContainTx txId), g)
  else
    let laneTotal := g.laneTotal
    let laneWasEmpty := g.laneIsIdle
    let g := g.syncSeen laneTotal laneWasEmpty
    let (isDuplicate, g) := g.probeGlobal txId laneWasEmpty
    let (isDuplicate, g) := g.probeLocal txId laneTotal laneWasEmpty isDuplicate
    match g.classifyHeadroomProbe laneTotal ingress isDuplicate with
    | some out => (out, g)
    | none =>
      let (out, g) := g.admitToLanes txId ingress
      g.finishAdmission txId out

/-! ### The dequeue -/

def preferNormalOnPop : Bool :=
  g.normalHasDedicatedCapacity && g.criticalBurstLimit ≤ g.criticalServedStreak &&
    g.normal.queue ≠ []

def recordPopFairness (servedCritical : Bool) : LaneAdmissionGate :=
  if g.normalHasDedicatedCapacity then
    if servedCritical then
      { g with
        criticalServedStreak := min (usizeAdd g.criticalServedStreak 1) g.criticalBurstLimit }
    else if g.normal.queue ≠ [] ∧ g.critical.queue ≠ [] then
      { g with criticalServedStreak := g.criticalBurstLimit - 1 }
    else { g with criticalServedStreak := 0 }
  else { g with criticalServedStreak := 0 }

/-- The dequeued id, and whether the critical lane served it. -/
def popLane : Option (U64 × Bool) × LaneAdmissionGate :=
  if g.preferNormalOnPop then
    match g.normal.popReady with
    | (some id, normal) => (some (id, false), { g with normal })
    | (none, normal) =>
      match g.critical.popReady with
      | (some id, critical) => (some (id, true), { g with normal, critical })
      | (none, critical) => (none, { g with normal, critical })
  else
    match g.critical.popReady with
    | (some id, critical) => (some (id, true), { g with critical })
    | (none, critical) =>
      match g.normal.popReady with
      | (some id, normal) => (some (id, false), { g with normal, critical })
      | (none, normal) => (none, { g with normal, critical })

def popReady : Option U64 × LaneAdmissionGate :=
  if g.laneIsIdle then (none, g.resetIdleState true)
  else
    match g.popLane with
    | (none, g) => (none, g)
    | (some (id, servedCritical), g) =>
      let g := (g.recordPopFairness servedCritical).repairGlobalSeenAfterPop id
      (some id,
        if g.normal.queue = [] ∧ g.critical.queue = [] then g.resetIdleState false else g)

def qosSnapshot : LaneQosSnapshot :=
  { normalQueued := g.normal.queue.length
    criticalQueued := g.critical.queue.length
    totalQueued := g.laneTotal
    normalHeadroom := g.normal.capacity - g.normal.queue.length
    criticalHeadroom := g.critical.capacity - g.critical.queue.length
    totalHeadroom := g.totalCapacity - g.laneTotal
    freshNormalAdmissible := g.freshAdmissible .normal
    freshCriticalAdmissible := g.freshAdmissible .critical }

end LaneAdmissionGate

/-- What the snapshot says of a class. -/
def LaneQosSnapshot.freshAdmissible (snapshot : LaneQosSnapshot) : IngressClass → Bool
  | .normal => snapshot.freshNormalAdmissible
  | .critical => snapshot.freshCriticalAdmissible

end Trillionnium.Mempool
