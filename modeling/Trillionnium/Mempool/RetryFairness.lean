import Trillionnium.Mempool.RetryBooks

/-!
# Fairness deferrals

A fresh id is deferred while the free slots are reserved for known retries, and the deferral ends
when an id is taken out. Taking from an empty queue ends nothing: an id that was deferred and finds
the queue empty is answered as a duplicate from then on, for as long as the known retries stay away.
-/

namespace Trillionnium.Mempool.Retry

open Lib Retry.AdmissionGate Books

/-- Rounds of taking an id out and admitting another. -/
def rounds (txId : U64) (n : Nat) : List GateCall :=
  (List.replicate n [GateCall.popReady, .admitTx txId]).flatten

/-- The id is accepted in one of so many rounds. -/
def AcceptedWithin (gate : AdmissionGate) (txId : U64) (n : Nat) : Prop :=
  ∃ t ∈ callTurns perform gate (rounds txId n), t.label = (.admitTx txId, .admitted .accepted)

/-- There are retries, the id is not one of them, and either the queue is empty and the id was the
last to be deferred or all slots are reserved, or the memory is full and all slots but at most one
are reserved. -/
def Starved (gate : AdmissionGate) (txId : U64) : Prop :=
  gate.backpressuredIds ≠ ∅ ∧ txId ∉ gate.backpressuredIds ∧
    (gate.queue = [] ∧
        (gate.lastFairnessDeferred = some txId ∨ gate.retryReservations = gate.capacity) ∨
      gate.queue ≠ [] ∧ gate.backpressuredIds.card = gate.capacity ∧
        gate.capacity ≤ gate.retryReservations + 1)

section
variable {gate : AdmissionGate} {txId : U64} {n m : Nat}

def afterRound (gate : AdmissionGate) (txId : U64) : AdmissionGate :=
  (gate.popReady.2.admitTx txId).2

theorem acceptedWithin_succ : AcceptedWithin gate txId (n + 1) ↔
    (gate.popReady.2.admitTx txId).1 = .accepted ∨
    AcceptedWithin (afterRound gate txId) txId n := by
  have hturns : callTurns perform gate (rounds txId (n + 1)) = callTurn perform gate .popReady ::
      callTurn perform gate.popReady.2 (.admitTx txId) ::
        callTurns perform (afterRound gate txId) (rounds txId n) := rfl
  rw [AcceptedWithin, hturns]
  simp only [List.mem_cons, or_and_right, exists_or, exists_eq_left]
  have hpop : (callTurn perform gate .popReady).label ≠ (.admitTx txId, .admitted .accepted) := by
    simp [callTurn]
  have hadmit : (callTurn perform gate.popReady.2 (.admitTx txId)).label =
      (.admitTx txId, .admitted .accepted) ↔ (gate.popReady.2.admitTx txId).1 = .accepted := by
    simp [callTurn, perform]
  rw [or_iff_right hpop, hadmit]
  rfl

theorem not_acceptedWithin_zero : ¬ AcceptedWithin gate txId 0 := by
  rintro ⟨t, ht, -⟩
  cases ht

theorem AcceptedWithin.mono (h : AcceptedWithin gate txId n) (hle : n ≤ m) :
    AcceptedWithin gate txId m := by
  induction n generalizing gate m with
  | zero => exact absurd h not_acceptedWithin_zero
  | succ n ih =>
    obtain ⟨m, rfl⟩ : ∃ k, m = k + 1 := ⟨m - 1, by omega⟩
    rw [acceptedWithin_succ] at h ⊢
    exact h.imp_right fun h => ih h (by omega)

/-! ## Rounds on an empty queue -/

theorem popReady_empty (hqueue : gate.queue = []) : gate.popReady = (none, gate) := by
  rw [popReady, hqueue]

variable (h : Books gate)
include h

/-- What an admission to a free slot does to a fresh id while there are retries. -/
theorem admit_fresh (hids : gate.backpressuredIds ≠ ∅) (hfresh : txId ∉ gate.backpressuredIds)
    (hqueue : txId ∉ gate.queue) (hfree : gate.queue.length < gate.capacity) : gate.admitTx txId =
      if gate.lastFairnessDeferred = some txId then gate.repeated
          else if 0 < gate.retryReservations ∧
          gate.capacity - gate.queue.length ≤ gate.retryReservations then gate.deferFresh txId
      else gate.accept txId := by
  have hseen : txId ∉ gate.seen := fun hmem => hqueue (h.mem_seen.mp hmem)
  have hready : ready gate = gate := by rw [ready, if_neg hids]
  rw [h.admit_eq, if_neg hseen, if_neg (not_le.mpr hfree), hready]
  refine if_congr ?_ rfl (if_congr ?_ rfl rfl)
  · exact ⟨fun hc => hc.2.2, fun hc => ⟨hids, hfresh, hc⟩⟩
  · exact ⟨fun hc => ⟨hc.1, hc.2.1⟩, fun hc => ⟨hc.1, hc.2, hfresh⟩⟩

/-- An admission to a free slot accepts a retry, and any id where there are no retries. -/
theorem admit_unreserved
    (hids : gate.backpressuredIds = ∅ ∨ txId ∈ gate.backpressuredIds) (hqueue : txId ∉ gate.queue)
    (hfree : gate.queue.length < gate.capacity) : (gate.admitTx txId).1 = .accepted := by
  rcases hids with hempty | hretry
  · have hseen : txId ∉ gate.seen := fun hmem => hqueue (h.mem_seen.mp hmem)
    have hnone : ¬ 0 < gate.retryReservations := by
      have hreserved := h.reserved
      rw [hempty, Finset.card_empty] at hreserved
      omega
    obtain ⟨metrics, haccept⟩ := h.ready_books.accept_eq txId
    rw [h.admit_eq, if_neg hseen, if_neg (not_le.mpr hfree), if_neg (fun hc => hc.1 hempty),
      if_neg (fun hc => hnone hc.1), haccept]
  · exact h.admit_retry hretry hfree

theorem accept_outcome (txId : U64) : (gate.accept txId).1 = .accepted := by
  obtain ⟨metrics, haccept⟩ := h.accept_eq txId
  rw [haccept]

/-! ## Starvation -/

theorem Starved.empty_round (hstarved : Starved gate txId) (hqueue : gate.queue = []) :
    (gate.popReady.2.admitTx txId).1 ≠ .accepted ∧ Starved (afterRound gate txId) txId ∧
      (afterRound gate txId).queue = [] := by
  obtain ⟨hids, hfresh, hcase⟩ := hstarved
  have hcase := (hcase.resolve_right fun hc => hc.1 hqueue).2
  have hpositive := h.positive
  have hadmit := admit_fresh h hids hfresh (by simp [hqueue]) (by simpa [hqueue] using hpositive)
  rw [afterRound, popReady_empty hqueue, hadmit]
  by_cases hlast : gate.lastFairnessDeferred = some txId
  · rw [if_pos hlast]
    exact ⟨by simp [repeated], ⟨hids, hfresh, .inl ⟨hqueue, .inl hlast⟩⟩, hqueue⟩
  · have hall := hcase.resolve_left hlast
    rw [if_neg hlast, if_pos ⟨by omega, by rw [hall]; exact Nat.sub_le _ _⟩]
    exact ⟨by simp [deferFresh], ⟨hids, hfresh, .inl ⟨hqueue, .inl rfl⟩⟩, hqueue⟩

/-- A round on a queue that is not empty, while there are retries and the id is not one of them. -/
theorem round_fresh {id : U64} {queue : List U64} (hqueue : gate.queue = id :: queue)
    (hids : gate.backpressuredIds ≠ ∅) (hfresh : txId ∉ gate.backpressuredIds)
    (hnot : txId ∉ gate.queue) :
    gate.popReady.2.admitTx txId =
      if gate.capacity - queue.length ≤
          min (gate.retryReservations + 1) gate.backpressuredIds.card then
        (popped gate id queue).deferFresh txId else (popped gate id queue).accept txId := by
  have hbooks := h.popped_books hqueue
  have hfits := h.queueFits
  have hcard : 0 < gate.backpressuredIds.card :=
    Finset.card_pos.mpr (Finset.nonempty_iff_ne_empty.mpr hids)
  rw [hqueue] at hnot hfits
  rw [h.popReady_eq hqueue, admit_fresh hbooks hids hfresh (fun hmem =>
    hnot (List.mem_cons_of_mem _ hmem)) hfits, if_neg (by simp [popped])]
  refine if_congr ?_ rfl rfl
  simp only [popped]
  exact ⟨fun hc => hc.2, fun hc => ⟨by omega, hc⟩⟩

theorem Starved.round (hstarved : Starved gate txId) (hnot : txId ∉ gate.queue) :
    (gate.popReady.2.admitTx txId).1 ≠ .accepted ∧ Starved (afterRound gate txId) txId ∧
      txId ∉ (afterRound gate txId).queue := by
  cases hqueue : gate.queue with
  | nil =>
    obtain ⟨houtcome, hstarved', hqueue'⟩ := hstarved.empty_round h hqueue
    exact ⟨houtcome, hstarved', by simp [hqueue']⟩
  | cons id queue =>
    obtain ⟨hids, hfresh, hcase⟩ := hstarved
    obtain ⟨-, hmemory, hreserved⟩ := hcase.resolve_left fun hc => by simp [hqueue] at hc
    have hround := round_fresh h hqueue hids hfresh hnot
    rw [if_pos (by rw [hmemory, min_eq_right hreserved]; exact Nat.sub_le _ _)] at hround
    rw [afterRound, hround]
    rw [hqueue] at hnot
    refine ⟨by simp [deferFresh], ⟨hids, hfresh, ?_⟩, fun hmem =>
      hnot (List.mem_cons_of_mem _ hmem)⟩
    simp only [deferFresh, popped, hmemory, min_eq_right hreserved]
    by_cases hempty : queue = []
    · exact .inl ⟨hempty, .inl trivial⟩
    · exact .inr ⟨hempty, trivial, by omega⟩

theorem Starved.not_acceptedWithin (hstarved : Starved gate txId)
    (hnot : txId ∉ gate.queue) (n : Nat) : ¬ AcceptedWithin gate txId n := by
  induction n generalizing gate with
  | zero => exact not_acceptedWithin_zero
  | succ n ih =>
    obtain ⟨houtcome, hstarved', hnot'⟩ := hstarved.round h hnot
    have hpop := (h.step .popReady).books h
    have hbooks := (hpop.step (.admitTx txId)).books hpop
    rw [acceptedWithin_succ]
    exact not_or.mpr ⟨houtcome, ih hbooks hstarved' hnot'⟩

/-! ## Progress -/

/-- An id that is not starved is accepted by the time that the queue has drained. -/
theorem acceptedWithin_of_not_starved (hnot : txId ∉ gate.queue)
    (hstarved : ¬ Starved gate txId) : AcceptedWithin gate txId (gate.queue.length + 1) := by
  induction hlen : gate.queue.length generalizing gate with
  | zero =>
    have hqueue := List.length_eq_zero_iff.mp hlen
    have hpositive := h.positive
    have hfree : gate.queue.length < gate.capacity := by omega
    rw [acceptedWithin_succ, popReady_empty hqueue]
    left
    by_cases hids : gate.backpressuredIds = ∅ ∨ txId ∈ gate.backpressuredIds
    · exact admit_unreserved h hids hnot hfree
    · obtain ⟨hids, hfresh⟩ := not_or.mp hids
      have hlast : gate.lastFairnessDeferred ≠ some txId := fun hlast =>
        hstarved ⟨hids, hfresh, .inl ⟨hqueue, .inl hlast⟩⟩
      have hall : gate.retryReservations ≠ gate.capacity := fun hall =>
        hstarved ⟨hids, hfresh, .inl ⟨hqueue, .inr hall⟩⟩
      have hless : gate.retryReservations < gate.capacity :=
        lt_of_le_of_ne (h.reserved.trans h.memoryFits) hall
      rw [admit_fresh h hids hfresh hnot hfree, if_neg hlast, if_neg (by omega)]
      exact accept_outcome h txId
  | succ n ih =>
    obtain ⟨id, queue, hqueue⟩ := List.exists_cons_of_length_eq_add_one hlen
    rw [acceptedWithin_succ]
    have hpopped := h.popped_books hqueue
    by_cases hids : gate.backpressuredIds = ∅ ∨ txId ∈ gate.backpressuredIds
    · left
      rw [h.popReady_eq hqueue]
      refine admit_unreserved hpopped hids ?_ ?_
      · rw [hqueue] at hnot
        exact fun hmem => hnot (List.mem_cons_of_mem _ hmem)
      · have hfits := h.queueFits
        rw [hqueue] at hfits
        exact hfits
    · obtain ⟨hids, hfresh⟩ := not_or.mp hids
      have hround := round_fresh h hqueue hids hfresh hnot
      split at hround
      · next hdefer =>
        right
        have hlength : queue.length = n := by
          rw [hqueue, List.length_cons] at hlen
          omega
        have hmemory := h.memoryFits
        have hafter : afterRound gate txId = ((popped gate id queue).deferFresh txId).2 := by
          rw [afterRound, hround]
        have hpop := (h.step .popReady).books h
        have hbooks : Books (afterRound gate txId) := (hpop.step (.admitTx txId)).books hpop
        rw [hafter] at hbooks ⊢
        refine ih hbooks ?_ ?_ hlength
        · rw [hqueue] at hnot
          exact fun hmem => hnot (List.mem_cons_of_mem _ hmem)
        · -- what would starve the id after the deferral starved it before
          rintro ⟨-, -, hcase⟩
          refine hstarved ⟨hids, hfresh, .inr ⟨by simp [hqueue], ?_⟩⟩
          simp only [deferFresh, popped] at hcase
          rcases hcase with ⟨hempty, -⟩ | ⟨-, hfull, hreserved⟩
          · rw [hempty, List.length_nil] at hdefer
            omega
          · omega
      · left
        rw [hround]
        exact accept_outcome hpopped txId

omit h

end

/-- After any calls on a new gate, an id that is not queued is accepted within so many rounds of
taking an id out and admitting it exactly when it is not starved. -/
theorem fairness_deferral_transient_iff (capacity : Nat) (cs : List GateCall) (txId : U64)
    (hnot : txId ∉ (afterCalls perform (new capacity) cs).queue) :
    AcceptedWithin (afterCalls perform (new capacity) cs) txId (2 * max capacity 1 + 2) ↔
      ¬ Starved (afterCalls perform (new capacity) cs) txId := by
  have hbooks := (books_run capacity cs).1
  constructor
  · intro haccepted hstarved
    exact hstarved.not_acceptedWithin hbooks hnot _ haccepted
  · intro hstarved
    have hfits := hbooks.queueFits
    rw [capacity_run] at hfits
    exact (acceptedWithin_of_not_starved hbooks hnot hstarved).mono (by omega)

/-- Id 1 is queued, 2 is turned away, and the queue is empty again. -/
def sampleFreed : List GateCall := [.admitTx 1, .admitTx 2, .popReady]

/-- Over two slots a new id is deferred for the retry of 3, and accepted in a later round. -/
theorem sample_fairness_deferral_transient_iff :
    let gate := afterCalls perform (new 2) [.admitTx 1, .admitTx 2, .admitTx 3, .popReady]
    (gate.admitTx 4).1 = .backpressured ∧ 4 ∉ gate.backpressuredIds ∧
      AcceptedWithin gate 4 (2 * max 2 1 + 2) := by
  intro gate
  have hiff := fairness_deferral_transient_iff 2 [.admitTx 1, .admitTx 2, .admitTx 3, .popReady] 4
    (by decide +kernel)
  refine ⟨by decide +kernel, by decide +kernel, hiff.mpr ?_⟩
  rintro ⟨-, -, ⟨hempty, -⟩ | ⟨-, hfull, -⟩⟩
  · exact absurd hempty (by decide +kernel)
  · exact absurd hfull (by decide +kernel)

/-- Id 3 finds the free slot reserved and is deferred; the rounds that follow do not accept it. -/
theorem deferred_id_starves : ¬ AcceptedWithin
    (afterCalls perform (new 1) (sampleFreed ++ [.admitTx 3])) 3 (2 * max 1 1 + 2) := by
  have hbooks := (books_run 1 (sampleFreed ++ [.admitTx 3])).1
  refine Starved.not_acceptedWithin hbooks ?_ (by decide +kernel) _
  exact ⟨by decide +kernel, by decide +kernel, .inl ⟨by decide +kernel, .inl (by decide +kernel)⟩⟩

end Trillionnium.Mempool.Retry
