import Trillionnium.Mempool.RetryBooks

/-!
# Which retry is evicted

The memory of retries evicts the id whose marker is in front of its FIFO. Markers are appended, so
they stand in the order of age until an id is remembered while a marker is stale: then the FIFO is
rebuilt in the order of the ids, and the next eviction can hit a younger id.
-/

namespace Trillionnium.Mempool.Retry

open Lib Retry.AdmissionGate Books

/-- The ids in the memory, by the turn in which their stay began. -/
def stays (ts : List GateTurn) : List U64 :=
  ts.foldl (fun stays t => stays.filter (· ∈ t.after.backpressuredIds) ++
    ascending (t.after.backpressuredIds \ t.before.backpressuredIds)) []

/-- If the turn remembers a new id and drops others, it drops one and the oldest. -/
def EvictsOldest (ts : List GateTurn) (t : GateTurn) : Prop :=
  ∀ txId, t.label.1 = .admitTx txId → txId ∉ t.before.backpressuredIds →
    txId ∈ t.after.backpressuredIds → t.before.backpressuredIds \ t.after.backpressuredIds ≠ ∅ →
      ∃ oldest, (stays ts).head? = some oldest ∧
        t.before.backpressuredIds \ t.after.backpressuredIds = {oldest}

/-- The FIFO has no stale marker, or its live markers and the new id stand in the order of the
ids. -/
def MarkersInOrder (gate : AdmissionGate) (txId : U64) : Prop :=
  gate.backpressuredFifo.length = gate.backpressuredIds.card ∨
    (gate.backpressuredFifo.filter (· ∈ gate.backpressuredIds) ++ [txId]).Pairwise (· < ·)

/-- The admission of a turn to a full queue, of an id that is neither queued nor remembered, finds
the markers in order. -/
def RemembersInOrder (t : GateTurn) : Prop :=
  ∀ txId, t.label.1 = .admitTx txId → t.before.capacity ≤ t.before.queue.length →
    txId ∉ t.before.seen → txId ∉ t.before.backpressuredIds → MarkersInOrder t.before txId

/-- The live markers stand in the order of age. -/
def Aged (ts : List GateTurn) (gate : AdmissionGate) : Prop :=
  gate.backpressuredFifo.filter (· ∈ gate.backpressuredIds) = stays ts

section
variable {ts : List GateTurn} {t : GateTurn} {gate gate' : AdmissionGate} {c : GateCall}
  {reply : GateReply} {txId : U64}

theorem stays_append : stays (ts ++ [t]) = (stays ts).filter (· ∈ t.after.backpressuredIds) ++
    ascending (t.after.backpressuredIds \ t.before.backpressuredIds) := by
  rw [stays, List.foldl_append, ← stays]
  rfl

theorem mem_stays (h : Books gate) (haged : Aged ts gate) :
    txId ∈ stays ts ↔ txId ∈ gate.backpressuredIds := by
  rw [← haged, List.mem_filter, decide_eq_true_eq]
  exact ⟨fun hmem => hmem.2, fun hmem => ⟨h.marked txId hmem, hmem⟩⟩

/-- Where the memory does not grow, the ages of what stays in it are as before. -/
theorem stays_append_of_subset (hsubset : t.after.backpressuredIds ⊆ t.before.backpressuredIds) :
    stays (ts ++ [t]) = (stays ts).filter (· ∈ t.after.backpressuredIds) := by
  rw [stays_append, Finset.sdiff_eq_empty_iff_subset.mpr hsubset, ascending_eq_sort,
    Finset.sort_empty, List.append_nil]

theorem aged_same (haged : Aged ts gate) (hids : gate'.backpressuredIds = gate.backpressuredIds)
    (hfifo : gate'.backpressuredFifo = gate.backpressuredFifo) :
    Aged (ts ++ [⟨gate, (c, reply), gate'⟩]) gate' := by
  rw [Aged, stays_append_of_subset (by rw [hids]), hids, hfifo, ← haged, List.filter_filter]
  simp

variable (h : Books gate)
include h

theorem stays_append_new {ids : Finset U64} (haged : Aged ts gate)
    (hsubset : ids ⊆ gate.backpressuredIds) (hnew : txId ∉ gate.backpressuredIds)
    (hids : gate'.backpressuredIds = insert txId ids) :
    stays (ts ++ [⟨gate, (c, reply), gate'⟩]) = (stays ts).filter (· ∈ ids) ++ [txId] := by
  have hgrown : insert txId ids \ gate.backpressuredIds = {txId} := by
    rw [Finset.insert_sdiff_of_notMem _ hnew, Finset.sdiff_eq_empty_iff_subset.mpr hsubset,
      insert_empty_eq]
  rw [stays_append, hids, hgrown, ascending_eq_sort, Finset.sort_singleton]
  congr 1
  refine List.filter_congr fun id hid => ?_
  have hne : id ≠ txId := fun heq => hnew (heq ▸ (mem_stays h haged).mp hid)
  simp [hne]

theorem filter_live (hlen : gate.backpressuredFifo.length = gate.backpressuredIds.card) :
    gate.backpressuredFifo.filter (· ∈ gate.backpressuredIds) = gate.backpressuredFifo := by
  rw [List.filter_eq_self]
  intro id hid
  rw [decide_eq_true_eq, ← h.markers_live hlen]
  exact List.mem_toFinset.mpr hid

theorem aged_remembered (haged : Aged ts gate) (hnew : txId ∉ gate.backpressuredIds)
    (horder : MarkersInOrder gate txId)
    (hids : gate'.backpressuredIds = insert txId gate.backpressuredIds)
    (hfifo : gate'.backpressuredFifo = (remembered gate txId).backpressuredFifo) :
    Aged (ts ++ [⟨gate, (c, reply), gate'⟩]) gate' := by
  have hstays : stays (ts ++ [⟨gate, (c, reply), gate'⟩]) = stays ts ++ [txId] := by
    rw [stays_append_new h haged (Finset.Subset.refl _) hnew hids, ← haged, List.filter_filter]
    simp
  rw [Aged, hstays, hids, hfifo, remembered]
  by_cases hlen : gate.backpressuredFifo.length = gate.backpressuredIds.card
  · rw [if_pos hlen, ← haged, List.filter_append, filter_live h hlen]
    congr 1
    · rw [List.filter_eq_self]
      intro id hid
      rw [decide_eq_true_eq, ← h.markers_live hlen]
      exact Finset.mem_insert_of_mem (List.mem_toFinset.mpr hid)
    · simp
  · -- the rebuilt FIFO is sorted, and so are the ages
    have hsorted := horder.resolve_left hlen
    rw [haged] at hsorted
    have hall : (insert txId gate.backpressuredIds).sort.filter
        (· ∈ insert txId gate.backpressuredIds) = (insert txId gate.backpressuredIds).sort := by
      rw [List.filter_eq_self]
      intro id hid
      rw [decide_eq_true_eq]
      exact (Finset.mem_sort _).mp hid
    have hset : insert txId gate.backpressuredIds = (stays ts ++ [txId]).toFinset := by
      ext id
      simp [mem_stays h haged]
    rw [if_neg hlen, ascending_eq_sort, hall, hset]
    exact (List.toFinset_sort _ (hsorted.imp ne_of_lt)).mpr (hsorted.imp le_of_lt)

/-- Of a full memory every marker is live. -/
theorem markers_of_full (hmemory : gate.backpressuredIds.card = gate.capacity) :
    gate.backpressuredFifo.length = gate.backpressuredIds.card := by
  have hmarkers := h.card_le_markers
  have hfits := h.markersFit
  omega

theorem stays_of_full (haged : Aged ts gate)
    (hmemory : gate.backpressuredIds.card = gate.capacity) : stays ts = gate.backpressuredFifo := by
  rw [← haged, filter_live h (markers_of_full h hmemory)]

theorem aged_displaced {oldest : U64} {rest : List U64} (haged : Aged ts gate)
    (hnew : txId ∉ gate.backpressuredIds) (hmemory : gate.backpressuredIds.card = gate.capacity)
    (hfront : gate.backpressuredFifo = oldest :: rest)
    (hids : gate'.backpressuredIds = insert txId (gate.backpressuredIds.erase oldest))
    (hfifo : gate'.backpressuredFifo = rest ++ [txId]) :
    Aged (ts ++ [⟨gate, (c, reply), gate'⟩]) gate' := by
  have hlive := h.markers_live (markers_of_full h hmemory)
  have hstays := stays_of_full h haged hmemory
  have honce := h.markedOnce
  rw [hfront] at hlive honce hstays
  have hrest : ∀ id ∈ rest, id ∈ gate.backpressuredIds.erase oldest := by
    intro id hid
    refine Finset.mem_erase.mpr ⟨?_, ?_⟩
    · rintro rfl
      exact (List.nodup_cons.mp honce).1 hid
    · rw [← hlive]
      exact List.mem_toFinset.mpr (List.mem_cons_of_mem _ hid)
  rw [Aged, stays_append_new h haged (Finset.erase_subset oldest _) hnew hids, hids, hfifo, hstays]
  have hkept : (oldest :: rest).filter (· ∈ gate.backpressuredIds.erase oldest) = rest := by
    rw [List.filter_cons_of_neg (by simp), List.filter_eq_self]
    intro id hid
    exact decide_eq_true (hrest id hid)
  rw [hkept, List.filter_eq_self]
  intro id hid
  rw [decide_eq_true_eq]
  rcases List.mem_append.mp hid with hid | hid
  · exact Finset.mem_insert_of_mem (hrest id hid)
  · rw [List.mem_singleton.mp hid]
    exact Finset.mem_insert_self _ _

omit h

theorem aged_admitted (haged : Aged ts gate)
    (hids : gate'.backpressuredIds = gate.backpressuredIds.erase txId)
    (hfifo : gate'.backpressuredFifo = (admitted gate txId).backpressuredFifo) :
    Aged (ts ++ [⟨gate, (c, reply), gate'⟩]) gate' := by
  have hsubset : gate'.backpressuredIds ⊆ gate.backpressuredIds := by
    rw [hids]
    exact Finset.erase_subset _ _
  rw [Aged, stays_append_of_subset hsubset, ← haged, List.filter_filter, hids, hfifo, admitted]
  split
  · next hempty => simp [hempty]
  · refine List.filter_congr fun id _ => ?_
    simp +contextual

theorem sdiff_displaced {ids : Finset U64} {oldest : U64} (hnew : txId ∉ ids)
    (holdest : oldest ∈ ids) :
    ids \ insert txId (ids.erase oldest) = {oldest} := by
  rw [Finset.sdiff_insert_of_notMem hnew, Finset.sdiff_erase_self holdest]

/-- A turn keeps the order of age where it remembers in order, and then drops the oldest. -/
theorem Aged.step (h : Books gate) (haged : Aged ts gate) (hstep : Step gate c reply gate')
    (horder : RemembersInOrder ⟨gate, (c, reply), gate'⟩) :
    Aged (ts ++ [⟨gate, (c, reply), gate'⟩]) gate' ∧ EvictsOldest ts ⟨gate, (c, reply), gate'⟩ := by
  have hnothing (hsame : gate.backpressuredIds ⊆ gate'.backpressuredIds) :
      EvictsOldest ts ⟨gate, (c, reply), gate'⟩ := by
    intro id _ _ _ hdropped
    exact absurd (Finset.sdiff_eq_empty_iff_subset.mpr hsame) hdropped
  cases hstep with
  | duplicate last metrics => exact ⟨aged_same haged rfl rfl, hnothing (Finset.Subset.refl _)⟩
  | deferred metrics hreserved hfresh =>
    exact ⟨aged_same haged rfl rfl, hnothing (Finset.Subset.refl _)⟩
  | remembered metrics hseen hnew hfull hroom =>
    have hmarkers := horder _ rfl hfull hseen hnew
    exact ⟨aged_remembered h haged hnew hmarkers rfl rfl, hnothing (Finset.subset_insert _ _)⟩
  | displaced metrics hseen hnew hfull hfront holdest hmemory =>
    refine ⟨aged_displaced h haged hnew hmemory hfront rfl rfl, ?_⟩
    intro id _ _ _ _
    refine ⟨_, ?_, sdiff_displaced hnew holdest⟩
    rw [stays_of_full h haged hmemory, hfront, List.head?_cons]
  | accepted last metrics hseen hfree =>
    refine ⟨aged_admitted haged rfl rfl, ?_⟩
    intro id _ hbefore hafter _
    exact absurd (Finset.mem_of_mem_erase hafter) hbefore
  | idle hempty => exact ⟨aged_same haged rfl rfl, hnothing (Finset.Subset.refl _)⟩
  | popped hqueue => exact ⟨aged_same haged rfl rfl, hnothing (Finset.Subset.refl _)⟩

theorem aged_run (capacity : Nat) (cs : List GateCall)
    (horder : ∀ t ∈ callTurns perform (new capacity) cs, RemembersInOrder t) :
    Aged (callTurns perform (new capacity) cs) (afterCalls perform (new capacity) cs) ∧
      ∀ earlier t later, callTurns perform (new capacity) cs = earlier ++ t :: later →
        EvictsOldest earlier t := by
  induction cs using List.reverseRecOn with
  | nil =>
    refine ⟨rfl, ?_⟩
    intro earlier t later hturn
    simp [callTurns] at hturn
  | append_singleton cs c ih =>
    rw [callTurns_append] at horder ⊢
    rw [afterCalls_append]
    obtain ⟨haged, hevicts⟩ := ih fun t ht => horder t (List.mem_append_left _ ht)
    have hbooks := (books_run capacity cs).1
    have hlast := Aged.step hbooks haged (hbooks.step c)
      (horder _ (List.mem_append_right _ List.mem_cons_self))
    exact ⟨hlast.1, forall_split_snoc hevicts hlast.2⟩

end

/-- In every run in which ids are remembered in order, an admission that remembers an id and pushes
others out of the memory pushes out one, and the oldest. -/
theorem retry_memory_evicts_oldest (capacity : Nat) (cs : List GateCall)
    (horder : ∀ t ∈ callTurns perform (new capacity) cs, RemembersInOrder t) :
    ∀ earlier t later, callTurns perform (new capacity) cs = earlier ++ t :: later →
      EvictsOldest earlier t :=
  (aged_run capacity cs horder).2

/-- Ids 10 and 11 are turned away by a full queue of two, and 12 pushes out 10. -/
def sampleTurnedAway : List GateCall :=
  [.admitTx 1, .admitTx 2, .admitTx 10, .admitTx 11, .admitTx 12]

theorem sample_retry_memory_evicts_oldest :
    (afterCalls perform (new 2) sampleTurnedAway).backpressuredIds = {11, 12} ∧
      ∀ earlier t later, callTurns perform (new 2) sampleTurnedAway = earlier ++ t :: later →
        EvictsOldest earlier t := by
  have hlive : ∀ t ∈ callTurns perform (new 2) sampleTurnedAway,
      t.before.backpressuredFifo.length = t.before.backpressuredIds.card := by decide
  refine ⟨by decide, retry_memory_evicts_oldest 2 sampleTurnedAway ?_⟩
  intro t ht txId _ _ _ _
  exact .inl (hlive t ht)

/-- Of 10 and 5, which are turned away in this order, 10 is accepted, and its marker is stale when 3
is remembered. -/
def sampleStale : List GateCall :=
  [.admitTx 1, .admitTx 2, .admitTx 10, .admitTx 5, .popReady, .admitTx 10, .admitTx 3]

/-- Then 99 pushes out 3, although 5 is older. -/
theorem retry_memory_evicts_younger :
    ¬ EvictsOldest (callTurns perform (new 2) sampleStale)
      (callTurn perform (afterCalls perform (new 2) sampleStale) (.admitTx 99)) := by
  intro h
  have hstays : (stays (callTurns perform (new 2) sampleStale)).head? = some 5 := by decide
  have hdropped : (afterCalls perform (new 2) sampleStale).backpressuredIds \
      (perform (afterCalls perform (new 2) sampleStale) (.admitTx 99)).2.backpressuredIds =
        {3} := by
    decide
  obtain ⟨oldest, holdest, hset⟩ := h 99 rfl (by decide) (by decide) (by decide)
  rw [hstays, Option.some.injEq] at holdest
  rw [← holdest] at hset
  exact absurd (hdropped.symm.trans hset) (by decide)

end Trillionnium.Mempool.Retry
