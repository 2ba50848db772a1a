import Mathlib.Data.Finset.Sort
import Trillionnium.Lib.Checked

/-!
# The retry-aware admission gate

`AdmissionGate` of the mempool binary: a bounded queue that remembers the ids it turned away while
it was full, and keeps freed slots for them. The memory is a set with a FIFO of markers that may be
stale. No deque of 2 ^ 62 markers can be allocated, so `capacity.saturating_mul(4)` does not
saturate and counts are natural numbers.
-/

namespace Trillionnium.Mempool.Retry

open Lib

inductive AdmitOutcome where
  | accepted
  | duplicate
  | backpressured
  deriving DecidableEq

structure GateMetrics where
  accepted : Nat
  duplicates : Nat
  backpressured : Nat
  backpressureDuplicates : Nat
  fairnessDeferrals : Nat

def bump (counter : Nat) : Nat := usizeAdd counter 1

structure AdmissionGate where
  capacity : Nat
  queue : List U64
  seen : Finset U64
  backpressuredIds : Finset U64
  backpressuredFifo : List U64
  retryReservations : Nat
  lastFairnessDeferred : Option U64
  metrics : GateMetrics

namespace AdmissionGate

def new (capacity : Nat) : AdmissionGate :=
  ⟨max capacity 1, [], ∅, ∅, [], 0, none, ⟨0, 0, 0, 0, 0⟩⟩

/-! ## The memory of retries -/

/-- `sort_unstable` of the ids. -/
def ascending (ids : Finset U64) : List U64 :=
  Quot.liftOn ids.val (List.insertionSort (· ≤ ·)) fun a b h =>
    ((List.perm_insertionSort _ a).trans
      (h.trans (List.perm_insertionSort _ b).symm)).eq_of_pairwise'
      (List.pairwise_insertionSort _ a) (List.pairwise_insertionSort _ b)

theorem ascending_eq_sort (ids : Finset U64) : ascending ids = ids.sort := by
  have hperm : (ascending ids).Perm ids.sort := by
    rw [← Multiset.coe_eq_coe, Finset.sort_eq]
    obtain ⟨⟨l⟩, hnodup⟩ := ids
    exact Quot.sound (List.perm_insertionSort _ l)
  refine hperm.eq_of_pairwise' ?_ (Finset.pairwise_sort _ _)
  obtain ⟨⟨l⟩, hnodup⟩ := ids
  exact List.pairwise_insertionSort _ l

/-- The first marker of every id that is remembered. -/
def liveMarkers (ids : Finset U64) : Finset U64 → List U64 → List U64
  | _, [] => []
  | seen, candidate :: rest =>
    if candidate ∈ ids ∧ candidate ∉ seen then
      candidate :: liveMarkers ids (insert candidate seen) rest
    else liveMarkers ids seen rest

def compactBackpressuredFifo (gate : AdmissionGate) : AdmissionGate :=
  if gate.backpressuredFifo.length < 4 * gate.capacity then gate
  else if gate.backpressuredIds = ∅ then { gate with backpressuredFifo := [] }
  else { gate with
    backpressuredFifo := liveMarkers gate.backpressuredIds ∅ gate.backpressuredFifo }

/-- Markers are taken from the front until one of them is evicted. A marker of the id that was just
inserted is dropped while the memory without it is full. -/
def evictMarker (capacity : Nat) (txId : U64) (ids : Finset U64) :
    List U64 → Bool × Finset U64 × List U64
  | [] => (false, ids, [])
  | candidate :: rest =>
    if candidate = txId ∧ capacity ≤ ids.card - 1 then evictMarker capacity txId ids rest
    else if candidate ∈ ids then (true, ids.erase candidate, rest)
    else evictMarker capacity txId ids rest

/-- The memory without its smallest ids but the new one, and without that one if there is no other
way. -/
def trimmed (capacity : Nat) (txId : U64) (ids : Finset U64) : Finset U64 :=
  let kept := ids \ ((ascending (ids.erase txId)).take (ids.card - capacity)).toFinset
  if capacity < kept.card then kept.erase txId else kept

/-- The loop that shrinks the memory to its capacity, in at most so many rounds. -/
def shrink (capacity : Nat) (txId : U64) : Nat → Finset U64 → List U64 → Finset U64 × List U64
  | 0, ids, fifo => (ids, fifo)
  | rounds + 1, ids, fifo =>
    if ids.card ≤ capacity then (ids, fifo)
    else
      match evictMarker capacity txId ids fifo with
      | (true, ids, fifo) => shrink capacity txId rounds ids fifo
      | (false, ids, fifo) => (trimmed capacity txId ids, fifo)

def rememberBackpressured (gate : AdmissionGate) (txId : U64) : Bool × AdmissionGate :=
  if txId ∈ gate.backpressuredIds then (false, gate)
  else
    let gate := compactBackpressuredFifo { gate with
      backpressuredIds := insert txId gate.backpressuredIds
      backpressuredFifo := gate.backpressuredFifo ++ [txId] }
    let fifo :=
      if gate.backpressuredFifo.length < gate.backpressuredIds.card then
        ascending gate.backpressuredIds
      else gate.backpressuredFifo
    let (ids, fifo) := shrink gate.capacity txId gate.backpressuredIds.card
      gate.backpressuredIds fifo
    let fifo := if ids.card < fifo.length then ascending ids else fifo
    (true, { gate with backpressuredIds := ids, backpressuredFifo := fifo })

/-! ## Admission -/

section
variable (gate : AdmissionGate) (txId : U64)

def duplicate : AdmitOutcome × AdmissionGate :=
  (.duplicate, { gate with
    metrics := { gate.metrics with duplicates := bump gate.metrics.duplicates } })

def repeated : AdmitOutcome × AdmissionGate :=
  (.duplicate, { gate with metrics := { gate.metrics with
    duplicates := bump gate.metrics.duplicates
    backpressureDuplicates := bump gate.metrics.backpressureDuplicates } })

/-- Reservations are kept within the retries that are known. Without any, nothing is kept. -/
def settle : AdmissionGate :=
  let reservations := min gate.retryReservations (min gate.backpressuredIds.card gate.capacity)
  if gate.backpressuredIds.card = 0 then
    { gate with retryReservations := 0, lastFairnessDeferred := none, backpressuredFifo := [] }
  else { gate with retryReservations := reservations }

/-- Admission to a queue that is full. -/
def admitSaturated : AdmitOutcome × AdmissionGate :=
  if gate.lastFairnessDeferred = some txId then gate.repeated
  else
    let gate := { gate with lastFairnessDeferred := none }
    if gate.backpressuredIds.card ≠ 0 ∧ txId ∈ gate.backpressuredIds then gate.repeated
    else
      match gate.rememberBackpressured txId with
      | (false, gate) => gate.repeated
      | (true, gate) => (.backpressured, { gate with metrics := { gate.metrics with
          backpressured := bump gate.metrics.backpressured } })

/-- The deferral of a fresh id, which leaves the slot to a retry. -/
def deferFresh : AdmitOutcome × AdmissionGate :=
  (.backpressured, { gate with
    lastFairnessDeferred := some txId
    retryReservations := gate.retryReservations - 1
    metrics := { gate.metrics with
      backpressured := bump gate.metrics.backpressured
      fairnessDeferrals := bump gate.metrics.fairnessDeferrals } })

def isKnownRetryForFairness : Bool :=
  0 < gate.retryReservations ∧ gate.backpressuredIds.card ≠ 0 ∧ txId ∈ gate.backpressuredIds

/-- Whether the id that is accepted leaves the memory. Where slots are reserved, an id that is not
known is not looked up again. -/
def acceptedWasRetry : Bool :=
  gate.isKnownRetryForFairness txId ∨
    (gate.retryReservations = 0 ∧ gate.backpressuredIds.card ≠ 0 ∧ txId ∈ gate.backpressuredIds)

/-- The memory after an id was accepted. -/
def forgetAccepted : AdmissionGate :=
  let wasRetry := gate.acceptedWasRetry txId
  let gate :=
    if wasRetry then { gate with backpressuredIds := gate.backpressuredIds.erase txId } else gate
  let gate :=
    if wasRetry ∧ 4 * gate.capacity < gate.backpressuredFifo.length then
      gate.compactBackpressuredFifo
    else gate
  let gate := { gate with retryReservations := gate.retryReservations - 1 }
  if wasRetry ∧ gate.backpressuredIds = ∅ then
    { gate with retryReservations := 0, backpressuredFifo := [] }
  else gate

def accept : AdmitOutcome × AdmissionGate :=
  let gate := gate.forgetAccepted txId
  (.accepted, { gate with
    queue := gate.queue ++ [txId]
    seen := insert txId gate.seen
    metrics := { gate.metrics with accepted := bump gate.metrics.accepted } })

/-- Admission to a queue with a free slot. -/
def admitFree : AdmitOutcome × AdmissionGate :=
  if 0 < gate.retryReservations ∧ gate.lastFairnessDeferred = some txId ∧
      gate.isKnownRetryForFairness txId = false then gate.repeated
  else if 0 < gate.retryReservations ∧
      gate.capacity - gate.queue.length ≤ gate.retryReservations ∧
      gate.backpressuredIds.card ≠ 0 ∧ gate.isKnownRetryForFairness txId = false then
    gate.deferFresh txId
  else gate.accept txId

def admitTx : AdmitOutcome × AdmissionGate :=
  if txId ∈ gate.seen then gate.duplicate
  else
    let gate := gate.settle
    if gate.retryReservations = 0 ∧ gate.backpressuredIds.card ≠ 0 ∧
        gate.lastFairnessDeferred = some txId ∧ txId ∉ gate.backpressuredIds then gate.repeated
    else if gate.capacity ≤ gate.queue.length then gate.admitSaturated txId
    else gate.admitFree txId

end

def popReady (gate : AdmissionGate) : Option U64 × AdmissionGate :=
  match gate.queue with
  | [] => (none, gate)
  | id :: queue =>
    let gate := { gate with queue, seen := gate.seen.erase id, lastFairnessDeferred := none }
    let retryBudget := min gate.backpressuredIds.card gate.capacity
    if retryBudget = 0 then
      (some id, { gate with
        retryReservations := 0, lastFairnessDeferred := none, backpressuredFifo := [] })
    else
      let gate := { gate with retryReservations := min (gate.retryReservations + 1) retryBudget }
      let gate :=
        if 4 * gate.capacity < gate.backpressuredFifo.length then gate.compactBackpressuredFifo
        else gate
      (some id, gate)

end AdmissionGate

/-! ## Calls -/

inductive GateCall where
  | admitTx (txId : U64)
  | popReady

inductive GateReply where
  | admitted (outcome : AdmitOutcome)
  | popped (id : Option U64)

def perform (gate : AdmissionGate) : GateCall → GateReply × AdmissionGate
  | .admitTx txId => (.admitted (gate.admitTx txId).1, (gate.admitTx txId).2)
  | .popReady => (.popped gate.popReady.1, gate.popReady.2)

end Trillionnium.Mempool.Retry
