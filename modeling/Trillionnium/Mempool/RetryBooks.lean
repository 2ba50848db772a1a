import Trillionnium.Lib.Calls
import Trillionnium.Mempool.RetryGate

/-!
# The books of the retry-aware gate

`Books` couples the queue, the memory of retries, its markers and the reservations. On such a gate
there are never more markers than slots, so the compactions and the trimming for damaged states
change nothing: an id is evicted only when every marker is live, and then it is the one in front.
Every call keeps the books.
-/

namespace Trillionnium.Mempool.Retry

open Lib Retry.AdmissionGate

structure Books (gate : AdmissionGate) : Prop where
  positive : 0 < gate.capacity
  unique : gate.queue.Nodup
  seen : gate.seen = gate.queue.toFinset
  queueFits : gate.queue.length ≤ gate.capacity
  memoryFits : gate.backpressuredIds.card ≤ gate.capacity
  apart : Disjoint gate.seen gate.backpressuredIds
  reserved : gate.retryReservations ≤ gate.backpressuredIds.card
  marked : ∀ id ∈ gate.backpressuredIds, id ∈ gate.backpressuredFifo
  markedOnce : gate.backpressuredFifo.Nodup
  markersFit : gate.backpressuredFifo.length ≤ gate.capacity
  cold : gate.backpressuredIds = ∅ → gate.backpressuredFifo = []

theorem books_new (capacity : Nat) : Books (new capacity) where
  positive := Nat.lt_of_lt_of_le Nat.zero_lt_one (le_max_right ..)
  unique := .nil
  seen := rfl
  queueFits := Nat.zero_le _
  memoryFits := Nat.zero_le _
  apart := Finset.disjoint_empty_left _
  reserved := le_rfl
  marked := fun _ h => absurd h (Finset.notMem_empty _)
  markedOnce := .nil
  markersFit := Nat.zero_le _
  cold := fun _ => rfl

namespace Books
variable {gate : AdmissionGate} {txId : U64} (h : Books gate)
include h

/-- A change of what the books do not cover. -/
theorem relabel (last : Option U64) (metrics : GateMetrics) :
    Books { gate with lastFairnessDeferred := last, metrics } :=
  ⟨h.positive, h.unique, h.seen, h.queueFits, h.memoryFits, h.apart, h.reserved, h.marked,
    h.markedOnce, h.markersFit, h.cold⟩

theorem mem_seen : txId ∈ gate.seen ↔ txId ∈ gate.queue := by
  rw [h.seen, List.mem_toFinset]

theorem not_mem_ids_of_seen (hseen : txId ∈ gate.seen) : txId ∉ gate.backpressuredIds :=
  Finset.disjoint_left.mp h.apart hseen

theorem ids_subset : gate.backpressuredIds ⊆ gate.backpressuredFifo.toFinset :=
  fun id hid => List.mem_toFinset.mpr (h.marked id hid)

theorem card_le_markers : gate.backpressuredIds.card ≤ gate.backpressuredFifo.length :=
  (Finset.card_le_card h.ids_subset).trans (List.toFinset_card_le _)

/-- Where there are as many markers as retries, every marker is live. -/
theorem markers_live (hlen : gate.backpressuredFifo.length = gate.backpressuredIds.card) :
    gate.backpressuredFifo.toFinset = gate.backpressuredIds := by
  refine (Finset.eq_of_subset_of_card_le h.ids_subset ?_).symm
  rw [← hlen]
  exact List.toFinset_card_le _

omit h

/-! ## The memory -/

theorem compact_eq (gate : AdmissionGate) (h : gate.backpressuredFifo.length < 4 * gate.capacity) :
    gate.compactBackpressuredFifo = gate := if_pos h

/-- The gate that remembers an id while the memory has room. A FIFO with stale markers is rebuilt in
the order of the ids. -/
def remembered (gate : AdmissionGate) (txId : U64) : AdmissionGate :=
  { gate with
    backpressuredIds := insert txId gate.backpressuredIds
    backpressuredFifo :=
      if gate.backpressuredFifo.length = gate.backpressuredIds.card then
        gate.backpressuredFifo ++ [txId]
      else ascending (insert txId gate.backpressuredIds) }

/-- The gate that remembers an id in the place of the one whose marker is in front. -/
def displaced (gate : AdmissionGate) (txId oldest : U64) (rest : List U64) : AdmissionGate :=
  { gate with
    backpressuredIds := insert txId (gate.backpressuredIds.erase oldest)
    backpressuredFifo := rest ++ [txId] }

theorem shrink_of_fits {capacity rounds : Nat}
    (h : ids.card ≤ capacity) : shrink capacity txId rounds ids fifo = (ids, fifo) := by
  cases rounds with
  | zero => rfl
  | succ rounds => rw [shrink, if_pos h]

theorem rememberBackpressured_eq (gate : AdmissionGate) (hnew : txId ∉ gate.backpressuredIds)
    (h : Books gate) : gate.rememberBackpressured txId = (true, { gate with
        backpressuredIds := (shrink gate.capacity txId (gate.backpressuredIds.card + 1)
          (insert txId gate.backpressuredIds) (gate.backpressuredFifo ++ [txId])).1
        backpressuredFifo :=
          let (ids, fifo) := shrink gate.capacity txId (gate.backpressuredIds.card + 1)
            (insert txId gate.backpressuredIds) (gate.backpressuredFifo ++ [txId])
          if ids.card < fifo.length then ascending ids else fifo }) := by
  have hcard : (insert txId gate.backpressuredIds).card = gate.backpressuredIds.card + 1 :=
    Finset.card_insert_of_notMem hnew
  have hmarkers := h.card_le_markers
  have hfits := h.markersFit
  have hpositive := h.positive
  rw [rememberBackpressured, if_neg hnew, compact_eq]
  · simp only [List.length_append, List.length_singleton, hcard]
    rw [if_neg (by omega)]
  · simp only [List.length_append, List.length_singleton]
    omega

include h

theorem remember_room (hnew : txId ∉ gate.backpressuredIds)
    (hroom : gate.backpressuredIds.card < gate.capacity) :
    gate.rememberBackpressured txId = (true, remembered gate txId) := by
  have hcard : (insert txId gate.backpressuredIds).card = gate.backpressuredIds.card + 1 :=
    Finset.card_insert_of_notMem hnew
  have hmarkers := h.card_le_markers
  rw [rememberBackpressured_eq gate hnew h, shrink_of_fits (by omega)]
  simp only [List.length_append, List.length_singleton, hcard, Nat.add_lt_add_iff_right, remembered]
  by_cases hlen : gate.backpressuredFifo.length = gate.backpressuredIds.card
  · rw [if_neg (by omega), if_pos hlen]
  · rw [if_pos (by omega), if_neg hlen]

/-- A full memory has no stale markers, so the one in front is evicted. -/
theorem remember_full (hnew : txId ∉ gate.backpressuredIds)
    (hfull : gate.backpressuredIds.card = gate.capacity) :
    ∃ oldest rest, gate.backpressuredFifo = oldest :: rest ∧ oldest ∈ gate.backpressuredIds ∧
      gate.rememberBackpressured txId = (true, displaced gate txId oldest rest) := by
  have hmarkers := h.card_le_markers
  have hfits := h.markersFit
  have hpositive := h.positive
  have hlive := h.markers_live (by omega)
  cases hfifo : gate.backpressuredFifo with
  | nil =>
    rw [hfifo, List.length_nil] at hmarkers
    omega
  | cons oldest rest =>
    have holdest : oldest ∈ gate.backpressuredIds := by
      rw [← hlive, hfifo]
      simp
    have hne : oldest ≠ txId := fun heq => hnew (heq ▸ holdest)
    have hcard : (insert txId gate.backpressuredIds).card = gate.backpressuredIds.card + 1 :=
      Finset.card_insert_of_notMem hnew
    have herase : ((insert txId gate.backpressuredIds).erase oldest).card = gate.capacity := by
      rw [Finset.card_erase_of_mem (Finset.mem_insert_of_mem holdest), hcard]
      omega
    have hshrink : shrink gate.capacity txId (gate.backpressuredIds.card + 1)
        (insert txId gate.backpressuredIds) (oldest :: rest ++ [txId]) =
        ((insert txId gate.backpressuredIds).erase oldest, rest ++ [txId]) := by
      rw [shrink, if_neg (by omega), List.cons_append, evictMarker, if_neg (fun hc => hne hc.1),
        if_pos (Finset.mem_insert_of_mem holdest)]
      exact shrink_of_fits herase.le
    refine ⟨oldest, rest, rfl, holdest, ?_⟩
    rw [rememberBackpressured_eq gate hnew h, hfifo, hshrink]
    have hrest : (rest ++ [txId]).length = gate.capacity := by
      rw [hfifo] at hmarkers hfits
      simp only [List.length_cons, List.length_append, List.length_nil] at hmarkers hfits ⊢
      omega
    simp only [herase, hrest, lt_irrefl, if_false, displaced]
    rw [Finset.erase_insert_of_ne hne.symm]

theorem room_or_full :
    gate.backpressuredIds.card < gate.capacity ∨ gate.backpressuredIds.card = gate.capacity :=
  lt_or_eq_of_le h.memoryFits

theorem remembered_books (hseen : txId ∉ gate.seen)
    (hnew : txId ∉ gate.backpressuredIds) (hroom : gate.backpressuredIds.card < gate.capacity) :
    Books (remembered gate txId) := by
  have hcard : (insert txId gate.backpressuredIds).card = gate.backpressuredIds.card + 1 :=
    Finset.card_insert_of_notMem hnew
  refine ⟨h.positive, h.unique, h.seen, h.queueFits, hcard.trans_le hroom, ?_, ?_, ?_, ?_, ?_, ?_⟩
  · exact Finset.disjoint_insert_right.mpr ⟨hseen, h.apart⟩
  · exact h.reserved.trans (by rw [remembered, hcard]; exact Nat.le_succ _)
  · intro id hid
    simp only [remembered]
    split
    · rcases Finset.mem_insert.mp hid with rfl | hid
      · simp
      · exact List.mem_append_left _ (h.marked id hid)
    · rw [ascending_eq_sort]
      exact (Finset.mem_sort _).mpr hid
  · simp only [remembered]
    split
    · next hlen =>
      have hstale : txId ∉ gate.backpressuredFifo := by
        rwa [← List.mem_toFinset, h.markers_live hlen]
      exact h.markedOnce.append (List.nodup_singleton _) (List.disjoint_singleton.mpr hstale)
    · rw [ascending_eq_sort]
      exact Finset.sort_nodup _ _
  · simp only [remembered]
    split
    · next hlen =>
      rw [List.length_append, List.length_singleton, hlen]
      exact hroom
    · rw [ascending_eq_sort, Finset.length_sort, hcard]
      exact hroom
  · exact fun hempty => absurd hempty (Finset.insert_ne_empty _ _)

theorem displaced_books (hseen : txId ∉ gate.seen)
    (hnew : txId ∉ gate.backpressuredIds) (hfull : gate.backpressuredIds.card = gate.capacity)
    (hfifo : gate.backpressuredFifo = oldest :: rest) (holdest : oldest ∈ gate.backpressuredIds) :
    Books (displaced gate txId oldest rest) := by
  have hcard : (insert txId (gate.backpressuredIds.erase oldest)).card =
      gate.backpressuredIds.card := by
    rw [Finset.card_insert_of_notMem (fun hmem => hnew (Finset.mem_of_mem_erase hmem)),
      Finset.card_erase_add_one holdest]
  have hmarkers := h.card_le_markers
  have hfits := h.markersFit
  have honce := h.markedOnce
  have hlive := h.markers_live (by omega)
  rw [hfifo] at hmarkers hfits honce hlive
  have hrest : ∀ id ∈ rest, id ∈ gate.backpressuredIds := by
    intro id hid
    rw [← hlive]
    exact List.mem_toFinset.mpr (List.mem_cons_of_mem _ hid)
  refine ⟨h.positive, h.unique, h.seen, h.queueFits, hcard.trans_le h.memoryFits, ?_,
    h.reserved.trans hcard.ge, ?_, ?_, ?_, ?_⟩
  · refine Finset.disjoint_insert_right.mpr ⟨hseen, ?_⟩
    exact h.apart.mono_right (Finset.erase_subset _ _)
  · intro id hid
    rcases Finset.mem_insert.mp hid with rfl | hid
    · simp [displaced]
    · obtain ⟨hne, hid⟩ := Finset.mem_erase.mp hid
      have hmarked := h.marked id hid
      rw [hfifo] at hmarked
      exact List.mem_append_left _ ((List.mem_cons.mp hmarked).resolve_left hne)
  · have hstale : txId ∉ rest := fun hmem => hnew (hrest txId hmem)
    exact (List.nodup_cons.mp honce).2.append (List.nodup_singleton _)
      (List.disjoint_singleton.mpr hstale)
  · rw [displaced, List.length_append]
    simpa using hfits
  · exact fun hempty => absurd hempty (Finset.insert_ne_empty _ _)

/-! ## Admission -/

/-- The gate that an admission works on: without retries, nothing is left of a deferral. -/
def ready (gate : AdmissionGate) : AdmissionGate :=
  { gate with
    lastFairnessDeferred := if gate.backpressuredIds = ∅ then none else gate.lastFairnessDeferred }

theorem settle_eq : gate.settle = ready gate := by
  have hreserved := h.reserved
  have hmemory := h.memoryFits
  rw [settle, ready]
  split
  · next hcard =>
    have hempty := Finset.card_eq_zero.mp hcard
    have hzero : gate.retryReservations = 0 := by omega
    rw [if_pos hempty, ← hzero, ← h.cold hempty]
  · next hcard =>
    rw [if_neg (fun hempty => hcard (Finset.card_eq_zero.mpr hempty)), min_eq_left hmemory,
      min_eq_left hreserved]

theorem isKnownRetry_eq_false (hreserved : 0 < gate.retryReservations) (txId : U64) :
    (ready gate).isKnownRetryForFairness txId = false ↔ txId ∉ gate.backpressuredIds := by
  have hcard : gate.backpressuredIds.card ≠ 0 := by
    have := h.reserved
    omega
  simp [isKnownRetryForFairness, ready, hreserved, hcard]

/-- What an admission to a gate in order does. -/
theorem admit_eq : gate.admitTx txId = if txId ∈ gate.seen then gate.duplicate
    else if gate.capacity ≤ gate.queue.length then (ready gate).admitSaturated txId
    else if gate.backpressuredIds ≠ ∅ ∧ txId ∉ gate.backpressuredIds ∧
        gate.lastFairnessDeferred = some txId then (ready gate).repeated
    else if 0 < gate.retryReservations ∧ gate.capacity - gate.queue.length ≤
        gate.retryReservations ∧
        txId ∉ gate.backpressuredIds then (ready gate).deferFresh txId
          else (ready gate).accept txId := by
  rw [admitTx, h.settle_eq]
  by_cases hseen : txId ∈ gate.seen
  · rw [if_pos hseen, if_pos hseen]
  rw [if_neg hseen, if_neg hseen]
  have hlast (hids : gate.backpressuredIds ≠ ∅) :
      (ready gate).lastFairnessDeferred = gate.lastFairnessDeferred := if_neg hids
  have hcard : (ready gate).backpressuredIds.card ≠ 0 ↔ gate.backpressuredIds ≠ ∅ :=
    Finset.card_ne_zero.trans Finset.nonempty_iff_ne_empty
  -- the early answer to a repeated deferral is the one that the branches below it give
  by_cases hearly : (ready gate).retryReservations = 0 ∧ (ready gate).backpressuredIds.card ≠ 0 ∧
      (ready gate).lastFairnessDeferred = some txId ∧ txId ∉ (ready gate).backpressuredIds
  · have hids := hcard.mp hearly.2.1
    rw [if_pos hearly, if_pos (And.intro hids ⟨hearly.2.2.2, (hlast hids) ▸ hearly.2.2.1⟩),
      admitSaturated, if_pos hearly.2.2.1, ite_self]
  · rw [if_neg hearly]
    refine if_congr Iff.rfl rfl ?_
    rw [admitFree]
    by_cases hreserved : 0 < gate.retryReservations
    · have hids : gate.backpressuredIds ≠ ∅ := by
        intro hempty
        have hle := h.reserved
        rw [hempty, Finset.card_empty] at hle
        omega
      have hfresh := h.isKnownRetry_eq_false hreserved txId
      refine if_congr ?_ rfl (if_congr ?_ rfl rfl)
      · rw [hfresh, hlast hids]
        exact ⟨fun hc => ⟨hids, hc.2.2, hc.2.1⟩, fun hc => ⟨hreserved, hc.2.2, hc.2.1⟩⟩
      · rw [hfresh, hcard]
        exact ⟨fun hc => ⟨hc.1, hc.2.1, hc.2.2.2⟩, fun hc => ⟨hc.1, hc.2.1, hids, hc.2.2⟩⟩
    · have hzero : (ready gate).retryReservations = 0 := Nat.eq_zero_of_not_pos hreserved
      have hnot : ¬ 0 < (ready gate).retryReservations := hreserved
      rw [if_neg (fun hc => hnot hc.1), if_neg (fun hc => hnot hc.1),
        if_neg (fun hc => hearly ⟨hzero, hcard.mpr hc.1, (hlast hc.1).trans hc.2.2, hc.2.1⟩),
        if_neg (fun hc => hreserved hc.1)]

/-- The gate after an admission. An id that leaves the memory last takes the bookkeeping with it. -/
def admitted (gate : AdmissionGate) (txId : U64) : AdmissionGate :=
  { gate with
    queue := gate.queue ++ [txId]
    seen := insert txId gate.seen
    backpressuredIds := gate.backpressuredIds.erase txId
    backpressuredFifo :=
      if gate.backpressuredIds.erase txId = ∅ then [] else gate.backpressuredFifo
    retryReservations :=
      if gate.backpressuredIds.erase txId = ∅ then 0 else gate.retryReservations - 1 }

theorem acceptedWasRetry_eq :
    gate.acceptedWasRetry txId = decide (txId ∈ gate.backpressuredIds) := by
  have hreserved := h.reserved
  rw [acceptedWasRetry, decide_eq_decide]
  simp only [isKnownRetryForFairness, decide_eq_true_eq]
  constructor
  · rintro (hc | hc)
    · exact hc.2.2
    · exact hc.2.2
  · intro hmem
    have hcard := Finset.card_ne_zero_of_mem hmem
    rcases Nat.eq_zero_or_pos gate.retryReservations with hzero | hpos
    · exact .inr ⟨hzero, hcard, hmem⟩
    · exact .inl ⟨hpos, hcard, hmem⟩

theorem accept_eq (txId : U64) : ∃ metrics,
    gate.accept txId = (.accepted, { admitted gate txId with metrics }) := by
  have hmarkers := h.markersFit
  have hreserved := h.reserved
  have hlong : ¬ 4 * gate.capacity < gate.backpressuredFifo.length := by omega
  refine ⟨{ gate.metrics with accepted := bump gate.metrics.accepted }, ?_⟩
  rw [accept, forgetAccepted, h.acceptedWasRetry_eq]
  by_cases hmem : txId ∈ gate.backpressuredIds
  · simp only [hmem, decide_true, if_true, true_and, hlong, if_false]
    split
    · next hempty => simp only [admitted, hempty, if_true]
    · next hempty => simp only [admitted, hempty, if_false]
  · have herase := Finset.erase_eq_of_notMem hmem
    simp only [hmem, decide_false, Bool.false_eq_true, if_false, false_and, admitted, herase]
    split
    · next hempty =>
      have hzero : gate.retryReservations = 0 := by
        rw [hempty, Finset.card_empty] at hreserved
        omega
      rw [hzero, h.cold hempty, hempty]
    · rfl

theorem admitted_books (hseen : txId ∉ gate.seen)
    (hfree : gate.queue.length < gate.capacity) : Books (admitted gate txId) := by
  have hreserved := h.reserved
  have hcard := Finset.pred_card_le_card_erase (s := gate.backpressuredIds) (a := txId)
  refine ⟨h.positive, ?_, ?_, ?_, ?_, ?_, ?_, ?_, ?_, ?_, ?_⟩
  · refine h.unique.append (List.nodup_singleton _) (List.disjoint_singleton.mpr ?_)
    rwa [← h.mem_seen]
  · simp only [admitted, h.seen]
    ext id
    simp
  · simp only [admitted, List.length_append, List.length_singleton]
    exact hfree
  · exact (Finset.card_erase_le).trans h.memoryFits
  · refine Finset.disjoint_insert_left.mpr ⟨Finset.notMem_erase _ _, ?_⟩
    exact h.apart.mono_right (Finset.erase_subset _ _)
  · simp only [admitted]
    split
    · exact Nat.zero_le _
    · omega
  · intro id hid
    have hne : gate.backpressuredIds.erase txId ≠ ∅ := Finset.ne_empty_of_mem hid
    simp only [admitted, hne, if_false]
    exact h.marked id (Finset.mem_of_mem_erase hid)
  · simp only [admitted]
    split
    · exact .nil
    · exact h.markedOnce
  · simp only [admitted]
    split
    · exact Nat.zero_le _
    · exact h.markersFit
  · intro hempty
    simp only [admitted] at hempty ⊢
    rw [if_pos hempty]

theorem ready_books : Books (ready gate) := h.relabel _ gate.metrics

/-! ## Taking an id out -/

def popped (gate : AdmissionGate) (id : U64) (queue : List U64) : AdmissionGate :=
  { gate with
    queue, seen := gate.seen.erase id, lastFairnessDeferred := none
    retryReservations := min (gate.retryReservations + 1) gate.backpressuredIds.card }

theorem popReady_eq {id : U64} {queue : List U64} (hqueue : gate.queue = id :: queue) :
    gate.popReady = (some id, popped gate id queue) := by
  have hmarkers := h.markersFit
  have hreserved := h.reserved
  rw [popReady]
  simp only [hqueue, min_eq_left h.memoryFits]
  split
  · next hcard =>
    have hzero : gate.retryReservations = 0 := by omega
    simp only [popped, hzero, hcard, Nat.min_zero, h.cold (Finset.card_eq_zero.mp hcard)]
  · rw [if_neg (by omega)]
    rfl

theorem popped_books {id : U64} {queue : List U64} (hqueue : gate.queue = id :: queue) :
    Books (popped gate id queue) := by
  have hunique := h.unique
  rw [hqueue, List.nodup_cons] at hunique
  refine ⟨h.positive, hunique.2, ?_, ?_, h.memoryFits, ?_, min_le_right _ _, h.marked, h.markedOnce,
    h.markersFit, h.cold⟩
  · simp only [popped, h.seen, hqueue, List.toFinset_cons]
    exact Finset.erase_insert (fun hmem => hunique.1 (List.mem_toFinset.mp hmem))
  · have hfits := h.queueFits
    rw [hqueue, List.length_cons] at hfits
    exact (Nat.le_succ _).trans hfits
  · exact h.apart.mono_left (Finset.erase_subset _ _)

end Books

/-! ## Steps -/

open Books

/-- What a call on a gate in order can do. -/
inductive Step (gate : AdmissionGate) : GateCall → GateReply → AdmissionGate → Prop
  | duplicate {txId : U64} (last : Option U64) (metrics : GateMetrics) :
      Step gate (.admitTx txId) (.admitted .duplicate)
        { gate with lastFairnessDeferred := last, metrics }
  | deferred {txId : U64} (metrics : GateMetrics) (hreserved : 0 < gate.retryReservations)
      (hfresh : txId ∉ gate.backpressuredIds) :
      Step gate (.admitTx txId) (.admitted .backpressured)
        { gate with
          lastFairnessDeferred := some txId
          retryReservations := gate.retryReservations - 1
          metrics }
  | remembered {txId : U64} (metrics : GateMetrics) (hseen : txId ∉ gate.seen)
      (hnew : txId ∉ gate.backpressuredIds) (hfull : gate.capacity ≤ gate.queue.length)
      (hroom : gate.backpressuredIds.card < gate.capacity) :
      Step gate (.admitTx txId) (.admitted .backpressured)
        { remembered gate txId with lastFairnessDeferred := none, metrics }
  | displaced {txId oldest : U64} {rest : List U64} (metrics : GateMetrics)
      (hseen : txId ∉ gate.seen) (hnew : txId ∉ gate.backpressuredIds)
      (hfull : gate.capacity ≤ gate.queue.length)
      (hfifo : gate.backpressuredFifo = oldest :: rest) (holdest : oldest ∈ gate.backpressuredIds)
      (hmemory : gate.backpressuredIds.card = gate.capacity) :
      Step gate (.admitTx txId) (.admitted .backpressured)
        { displaced gate txId oldest rest with lastFairnessDeferred := none, metrics }
  | accepted {txId : U64} (last : Option U64) (metrics : GateMetrics) (hseen : txId ∉ gate.seen)
      (hfree : gate.queue.length < gate.capacity) :
      Step gate (.admitTx txId) (.admitted .accepted)
        { admitted gate txId with lastFairnessDeferred := last, metrics }
  | idle (hempty : gate.queue = []) : Step gate .popReady (.popped none) gate
  | popped {id : U64} {queue : List U64} (hqueue : gate.queue = id :: queue) :
      Step gate .popReady (.popped (some id)) (popped gate id queue)

section
variable {gate gate' : AdmissionGate} {c : GateCall} {reply : GateReply} {txId : U64}

theorem Books.saturated_step (h : Books gate) (hseen : txId ∉ gate.seen)
    (hfull : gate.capacity ≤ gate.queue.length) (last : Option U64) : Step gate (.admitTx txId)
      (.admitted ({ gate with lastFairnessDeferred := last }.admitSaturated txId).1)
      ({ gate with lastFairnessDeferred := last }.admitSaturated txId).2 := by
  have hbooks := h.relabel none gate.metrics
  rw [admitSaturated]
  split
  · exact .duplicate _ _
  · dsimp only
    split
    · exact .duplicate _ _
    · next hnew =>
      have hnew : txId ∉ gate.backpressuredIds := fun hmem =>
        hnew ⟨Finset.card_ne_zero_of_mem hmem, hmem⟩
      rcases hbooks.room_or_full with hroom | hmemory
      · rw [hbooks.remember_room hnew hroom]
        exact .remembered _ hseen hnew hfull hroom
      · obtain ⟨oldest, rest, hfifo, holdest, hremember⟩ := hbooks.remember_full hnew hmemory
        rw [hremember]
        exact .displaced _ hseen hnew hfull hfifo holdest hmemory

/-- Every call on a gate in order is one of the steps. -/
theorem Books.step (h : Books gate) (c : GateCall) :
    Step gate c (perform gate c).1 (perform gate c).2 := by
  cases c with
  | popReady =>
    simp only [perform]
    cases hqueue : gate.queue with
    | nil =>
      have hpop : gate.popReady = (none, gate) := by rw [popReady, hqueue]
      rw [hpop]
      exact .idle hqueue
    | cons id queue =>
      rw [h.popReady_eq hqueue]
      exact .popped hqueue
  | admitTx txId =>
    simp only [perform, h.admit_eq]
    split
    · exact .duplicate _ _
    · next hseen =>
      split
      · next hfull => exact h.saturated_step hseen hfull _
      · next hfree =>
        split
        · exact .duplicate _ _
        · split
          · next hdefer => exact .deferred _ hdefer.1 hdefer.2.2
          · obtain ⟨metrics, haccept⟩ := h.ready_books.accept_eq txId
            rw [haccept]
            exact .accepted _ _ hseen (not_le.mp hfree)

theorem Step.books (hstep : Step gate c reply gate') (h : Books gate) : Books gate' := by
  cases hstep with
  | duplicate last metrics => exact h.relabel last metrics
  | deferred metrics hreserved hfresh =>
    have hless : gate.retryReservations - 1 ≤ gate.backpressuredIds.card :=
      (Nat.sub_le _ _).trans h.reserved
    exact ⟨h.positive, h.unique, h.seen, h.queueFits, h.memoryFits, h.apart, hless, h.marked,
      h.markedOnce, h.markersFit, h.cold⟩
  | remembered metrics hseen hnew hfull hroom =>
    exact (h.remembered_books hseen hnew hroom).relabel none metrics
  | displaced metrics hseen hnew hfull hfifo holdest hmemory =>
    exact (h.displaced_books hseen hnew hmemory hfifo holdest).relabel none metrics
  | accepted last metrics hseen hfree => exact (h.admitted_books hseen hfree).relabel last metrics
  | idle hempty => exact h
  | popped hqueue => exact h.popped_books hqueue

end

/-! ## Runs -/

abbrev GateTurn := Turn AdmissionGate (GateCall × GateReply)

def acceptedIds (ts : List GateTurn) : List U64 :=
  ts.filterMap fun t => match t.label with
    | (.admitTx id, .admitted .accepted) => some id
    | _ => none

def poppedIds (ts : List GateTurn) : List U64 :=
  ts.filterMap fun t => match t.label.2 with
    | .popped id => id
    | .admitted _ => none

theorem Step.queue_eq (hstep : Step gate c reply gate')
    (h : acceptedIds ts = poppedIds ts ++ gate.queue) :
    acceptedIds (ts ++ [⟨gate, (c, reply), gate'⟩]) =
      poppedIds (ts ++ [⟨gate, (c, reply), gate'⟩]) ++ gate'.queue := by
  rw [acceptedIds, poppedIds, List.filterMap_append, List.filterMap_append, ← acceptedIds,
    ← poppedIds, h]
  cases hstep with
  | popped hqueue => simp [hqueue, Books.popped]
  | accepted last metrics hseen hfree => simp [Books.admitted]
  | _ => simp [Books.remembered, Books.displaced]

theorem books_run (capacity : Nat) (cs : List GateCall) :
    Books (afterCalls perform (new capacity) cs) ∧
      acceptedIds (callTurns perform (new capacity) cs) =
          poppedIds (callTurns perform (new capacity) cs) ++
          (afterCalls perform (new capacity) cs).queue := by
  refine callTurns_induction (P := fun ts gate => Books gate ∧
    acceptedIds ts = poppedIds ts ++ gate.queue) ⟨books_new capacity, rfl⟩ ?_ cs
  rintro ts gate c ⟨hbooks, hqueue⟩
  have hstep := hbooks.step c
  exact ⟨hstep.books hbooks, hstep.queue_eq hqueue⟩

theorem capacity_run (capacity : Nat) (cs : List GateCall) :
    (afterCalls perform (new capacity) cs).capacity = max capacity 1 := by
  have hrun : Books (afterCalls perform (new capacity) cs) ∧
      (afterCalls perform (new capacity) cs).capacity = max capacity 1 := by
    refine callTurns_induction (P := fun _ gate => Books gate ∧ gate.capacity = max capacity 1)
      ⟨books_new capacity, rfl⟩ ?_ cs
    rintro ts gate c ⟨hbooks, hcapacity⟩
    have hstep := hbooks.step c
    refine ⟨hstep.books hbooks, ?_⟩
    rw [← hcapacity]
    generalize (perform gate c).1 = reply at hstep
    generalize (perform gate c).2 = gate' at hstep
    cases hstep <;> rfl
  exact hrun.2

theorem Books.admit_retry (h : Books gate)
    (hretry : txId ∈ gate.backpressuredIds) (hfree : gate.queue.length < gate.capacity) :
    (gate.admitTx txId).1 = .accepted := by
  have hseen : txId ∉ gate.seen := fun hmem => h.not_mem_ids_of_seen hmem hretry
  obtain ⟨metrics, haccept⟩ := h.ready_books.accept_eq txId
  rw [h.admit_eq, if_neg hseen, if_neg (not_le.mpr hfree), if_neg (fun hc => hc.2.1 hretry),
    if_neg (fun hc => hc.2.2 hretry), haccept]

/-- After any calls on a new gate: what was accepted is what was taken out, in the same order, and
then what is queued; no id is queued twice and the seen ids are the queued ones; queue and memory
are within the capacity and apart; no more slots are reserved than retries are known; every retry
has a marker; and a retry is accepted whenever a slot is free. -/
theorem retry_gate_keeps_books (capacity : Nat) (cs : List GateCall) :
    let ts := callTurns perform (new capacity) cs
    let gate := afterCalls perform (new capacity) cs
    acceptedIds ts = poppedIds ts ++ gate.queue ∧ gate.queue.Nodup ∧
      gate.seen = gate.queue.toFinset ∧
      gate.queue.length ≤ max capacity 1 ∧ gate.backpressuredIds.card ≤ max capacity 1 ∧
      Disjoint gate.queue.toFinset gate.backpressuredIds ∧
      gate.retryReservations ≤ gate.backpressuredIds.card ∧
      (∀ id ∈ gate.backpressuredIds, id ∈ gate.backpressuredFifo) ∧
      ∀ id ∈ gate.backpressuredIds, gate.queue.length < max capacity 1 →
        (gate.admitTx id).1 = .accepted := by
  intro ts gate
  obtain ⟨hbooks, hqueue⟩ := books_run capacity cs
  have hcapacity : gate.capacity = max capacity 1 := capacity_run capacity cs
  rw [← hcapacity]
  exact ⟨hqueue, hbooks.unique, hbooks.seen, hbooks.queueFits, hbooks.memoryFits,
    hbooks.seen ▸ hbooks.apart, hbooks.reserved, hbooks.marked, fun id => hbooks.admit_retry⟩

end Trillionnium.Mempool.Retry
