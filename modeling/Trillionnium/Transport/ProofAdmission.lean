import Mathlib.Data.Finset.Basic
import Trillionnium.Hash
import Trillionnium.Lib.Calls
import Trillionnium.Lib.Checked

/-!
# Admission of proof work

The permits of `proof_admission.rs`: three for public traffic, two of them at most for one peer, and
one that is kept for recovery. Every locked section is atomic, so an interleaving of the threads is
the list of the sections in the order in which they take the lock, and a run is any list of calls.
The lock is never poisoned, since no section panics (`Exact.release`).
-/

namespace Trillionnium.Transport

open Lib Pon

inductive Refusal where
  | globalBusy | peerBusy | duplicate | stopped
  deriving DecidableEq

/-- A subtraction below zero. -/
inductive Panic where
  | underflow

/-- `State`; `publicCount` is its field `public`. -/
structure State where
  publicCount : Nat
  recovery : Nat
  peers : OrdMap Hash Nat
  active : Finset (Bool × Hash)
  generation : U64
  stopped : Bool

structure Permit where
  peer : Hash
  digest : Hash
  recovery : Bool
  generation : U64
  deriving DecidableEq

def Permit.key (p : Permit) : Bool × Hash := (p.recovery, p.digest)

namespace State

def default : State := ⟨0, 0, ∅, ∅, 0, false⟩

/-- The permits that a peer holds. -/
def held (s : State) (peer : Hash) : Nat := (s.peers.get peer).getD 0

def checkCapacity (s : State) (peer : Hash) (recovery : Bool) : Except Refusal Unit :=
  if recovery then require (¬ 1 ≤ s.recovery) .globalBusy
  else do
    require (¬ 3 ≤ s.publicCount) .globalBusy
    require (¬ 2 ≤ s.held peer) .peerBusy

def grant (s : State) (peer digest : Hash) (recovery : Bool) : State :=
  let s := { s with active := insert (recovery, digest) s.active }
  if recovery then { s with recovery := s.recovery + 1 }
  else { s with publicCount := s.publicCount + 1, peers := s.peers.insert peer (s.held peer + 1) }

def acquire (s : State) (peer digest : Hash) (recovery : Bool) :
    Except Refusal (Permit × State) := do
  require (s.stopped = false) .stopped
  require ((recovery, digest) ∉ s.active) .duplicate
  s.checkCapacity peer recovery
  return (⟨peer, digest, recovery, s.generation⟩, s.grant peer digest recovery)

/-- `stop` has set the flag when the counter of the stops overflows. -/
def stop (s : State) : Except Refusal Unit × State :=
  let s := { s with stopped := true }
  match checkedAdd s.generation 1 Refusal.stopped with
  | .ok generation => (.ok (), { s with generation })
  | .error e => (.error e, s)

def resume (s : State) : State := { s with stopped := false }

def cancelled (s : State) (p : Permit) : Bool := s.stopped || s.generation != p.generation

def decrement (n : Nat) : Except Panic Nat := if n = 0 then .error .underflow else .ok (n - 1)

def releasePeer (peers : OrdMap Hash Nat) (peer : Hash) : Except Panic (OrdMap Hash Nat) :=
  match peers.get peer with
  | none => .ok peers
  | some n => do
    let n ← decrement n
    return if n = 0 then peers.erase peer else peers.insert peer n

/-- `Permit::drop`. -/
def release (s : State) (p : Permit) : Except Panic State :=
  let s := { s with active := s.active.erase p.key }
  if p.recovery then do
    let recovery ← decrement s.recovery
    return { s with recovery }
  else do
    let publicCount ← decrement s.publicCount
    let peers ← releasePeer s.peers p.peer
    return { s with publicCount, peers }

end State

/-! ## Runs -/

/-- The shared state and the permits that were issued and not dropped. -/
structure World where
  state : State
  live : List Permit

inductive Call where
  | publicAcquire (peer digest : Hash)
  | recoveryAcquire (digest : Hash)
  | drop (p : Permit)
  | stop
  | resume
  deriving DecidableEq

inductive Reply where
  | issued (p : Permit)
  | refused (refusal : Refusal)
  | done
  | panicked
  deriving DecidableEq

namespace World

def start : World := ⟨.default, []⟩

def acquire (w : World) (peer digest : Hash) (recovery : Bool) : Reply × World :=
  match w.state.acquire peer digest recovery with
  | .ok (p, state) => (.issued p, ⟨state, p :: w.live⟩)
  | .error refusal => (.refused refusal, w)

/-- Only a live permit can be dropped, and only once. -/
def drop (w : World) (p : Permit) : Reply × World :=
  if p ∈ w.live then
    match w.state.release p with
    | .ok state => (.done, ⟨state, w.live.erase p⟩)
    | .error _ => (.panicked, { w with live := w.live.erase p })
  else (.done, w)

def stop (w : World) : Reply × World :=
  match w.state.stop with
  | (.ok _, state) => (.done, { w with state })
  | (.error refusal, state) => (.refused refusal, { w with state })

def perform (w : World) : Call → Reply × World
  | .publicAcquire peer digest => w.acquire peer digest false
  | .recoveryAcquire digest => w.acquire .zero digest true
  | .drop p => w.drop p
  | .stop => w.stop
  | .resume => (.done, { w with state := w.state.resume })

def after (calls : List Call) : World := afterCalls perform start calls

end World

/-! ## The counters -/

def publicLive (live : List Permit) : Nat := live.countP fun p => !p.recovery

def recoveryLive (live : List Permit) : Nat := live.countP (·.recovery)

def peerLive (peer : Hash) (live : List Permit) : Nat :=
  live.countP fun p => !p.recovery && p.peer == peer

/-- The state accounts for the live permits, within the bounds. -/
structure Exact (w : World) : Prop where
  public_eq : w.state.publicCount = publicLive w.live
  recovery_eq : w.state.recovery = recoveryLive w.live
  peers_eq : ∀ peer, w.state.peers.get peer = if peerLive peer w.live = 0 then none
    else some (peerLive peer w.live)
  active_eq : ∀ key, key ∈ w.state.active ↔ ∃ p ∈ w.live, p.key = key
  distinct : w.live.Pairwise fun p q => p.key ≠ q.key
  public_le : publicLive w.live ≤ 3
  recovery_le : recoveryLive w.live ≤ 1
  peer_le : ∀ peer, peerLive peer w.live ≤ 2

section
variable {w : World} {s s' : State} {p : Permit} {peer digest : Hash} {recovery : Bool}
  {live live' : List Permit}

theorem publicLive_cons :
    publicLive (p :: live) = publicLive live + if p.recovery then 0 else 1 := by
  cases h : p.recovery <;> simp [publicLive, h]

theorem recoveryLive_cons :
    recoveryLive (p :: live) = recoveryLive live + if p.recovery then 1 else 0 := by
  cases h : p.recovery <;> simp [recoveryLive, h]

theorem peerLive_cons (peer : Hash) :
    peerLive peer (p :: live) = peerLive peer live + if p.recovery = false ∧ p.peer = peer then 1
      else 0 := by
  cases h : p.recovery <;> simp [peerLive, List.countP_cons, h]

theorem exact_start : Exact .start := by
  constructor <;> simp [World.start, State.default, publicLive, recoveryLive, peerLive]

/-- The order in which the permits were issued does not matter. -/
theorem Exact.of_perm (h : Exact ⟨s, live⟩) (hperm : live.Perm live') : Exact ⟨s, live'⟩ := by
  have hpublic : publicLive live' = publicLive live := hperm.symm.countP_eq _
  have hrecovery : recoveryLive live' = recoveryLive live := hperm.symm.countP_eq _
  have hpeer (peer : Hash) : peerLive peer live' = peerLive peer live := hperm.symm.countP_eq _
  refine ⟨?_, ?_, ?_, ?_, ?_, ?_, ?_, ?_⟩
  · exact h.public_eq.trans hpublic.symm
  · exact h.recovery_eq.trans hrecovery.symm
  · intro peer
    rw [hpeer]
    exact h.peers_eq peer
  · intro key
    exact (h.active_eq key).trans (exists_congr fun q => and_congr_left' hperm.mem_iff)
  · exact (hperm.pairwise_iff fun hne => hne.symm).mp h.distinct
  · exact hpublic.trans_le h.public_le
  · exact hrecovery.trans_le h.recovery_le
  · exact fun peer => (hpeer peer).trans_le (h.peer_le peer)

theorem Exact.held_eq (h : Exact w) (peer : Hash) : w.state.held peer = peerLive peer w.live := by
  rw [State.held, h.peers_eq]
  split
  · next hzero => exact hzero.symm
  · rfl

/-! ## Acquiring -/

theorem State.acquire_eq_ok : s.acquire peer digest recovery = .ok (p, s') ↔
    s.stopped = false ∧ (recovery, digest) ∉ s.active ∧ s.checkCapacity peer recovery = .ok () ∧
      p = ⟨peer, digest, recovery, s.generation⟩ ∧ s' = s.grant peer digest recovery := by
  simp only [State.acquire, bind_eq_ok, require_eq_ok, pure_eq_ok, Prod.mk.injEq]
  constructor
  · rintro ⟨_, hstopped, _, hactive, _, hcapacity, rfl, rfl⟩
    exact ⟨hstopped, hactive, hcapacity, rfl, rfl⟩
  · rintro ⟨hstopped, hactive, hcapacity, rfl, rfl⟩
    exact ⟨(), hstopped, (), hactive, (), hcapacity, rfl, rfl⟩

/-- The new permit has a key of its own. -/
theorem Exact.acquire_keys (h : Exact w) (hactive : p.key ∉ w.state.active) :
    (∀ key, key ∈ insert p.key w.state.active ↔ ∃ q ∈ p :: w.live, q.key = key) ∧
      (p :: w.live).Pairwise fun p q => p.key ≠ q.key := by
  refine ⟨fun key => ?_, List.pairwise_cons.mpr ⟨fun q hq heq => ?_, h.distinct⟩⟩
  · rw [Finset.mem_insert, h.active_eq, List.exists_mem_cons_iff, eq_comm]
  · exact hactive ((h.active_eq _).mpr ⟨q, hq, heq.symm⟩)

theorem Exact.acquire (h : Exact w) (ha : w.state.acquire peer digest recovery = .ok (p, s')) :
    Exact ⟨s', p :: w.live⟩ := by
  obtain ⟨-, hactive, hcapacity, rfl, rfl⟩ := State.acquire_eq_ok.mp ha
  obtain ⟨hkeys, hdistinct⟩ := @Exact.acquire_keys w ⟨peer, digest, recovery, w.state.generation⟩
    h hactive
  have hheld := h.held_eq
  cases recovery with
  | true =>
    have hfree : w.state.recovery < 1 := not_le.mp (require_eq_ok.mp hcapacity)
    refine ⟨?_, ?_, ?_, hkeys, hdistinct, ?_, ?_, ?_⟩
    · rw [publicLive_cons]
      exact h.public_eq
    · rw [recoveryLive_cons]
      exact congrArg (· + 1) h.recovery_eq
    · intro peer
      rw [peerLive_cons]
      exact h.peers_eq peer
    · rw [publicLive_cons]
      exact h.public_le
    · rw [recoveryLive_cons, ← h.recovery_eq]
      exact hfree
    · intro peer
      rw [peerLive_cons]
      exact h.peer_le peer
  | false =>
    simp only [State.checkCapacity, Bool.false_eq_true, if_false, bind_eq_ok, require_eq_ok,
      not_le] at hcapacity
    obtain ⟨_, hpublic, hpeer⟩ := hcapacity
    refine ⟨?_, ?_, ?_, hkeys, hdistinct, ?_, ?_, ?_⟩
    · rw [publicLive_cons]
      exact congrArg (· + 1) h.public_eq
    · rw [recoveryLive_cons]
      exact h.recovery_eq
    · intro other
      rw [peerLive_cons]
      change (w.state.peers.insert peer (w.state.held peer + 1)).get other = _
      rw [OrdMap.get_insert, hheld]
      by_cases hother : peer = other
      · simp [hother]
      · simp [hother, h.peers_eq]
    · rw [publicLive_cons, ← h.public_eq]
      exact hpublic
    · rw [recoveryLive_cons]
      exact h.recovery_le
    · intro other
      rw [peerLive_cons]
      by_cases hother : peer = other
      · rw [hheld, hother] at hpeer
        simpa [hother] using Nat.succ_le_iff.mpr hpeer
      · simpa [hother] using h.peer_le other

/-! ## Dropping -/

theorem Exact.release_keys (h : Exact ⟨s, p :: live⟩) :
    (∀ key, key ∈ s.active.erase p.key ↔ ∃ q ∈ live, q.key = key) ∧ live.Pairwise fun p q =>
      p.key ≠ q.key := by
  obtain ⟨hfresh, hdistinct⟩ := List.pairwise_cons.mp h.distinct
  refine ⟨fun key => ?_, hdistinct⟩
  rw [Finset.mem_erase, h.active_eq, List.exists_mem_cons_iff]
  constructor
  · rintro ⟨hne, heq | hlive⟩
    · exact absurd heq.symm hne
    · exact hlive
  · rintro ⟨q, hq, rfl⟩
    exact ⟨(hfresh q hq).symm, .inr ⟨q, hq, rfl⟩⟩

/-- The entry of a peer follows the number of its permits down to its removal. -/
theorem State.releasePeer_eq {peers : OrdMap Hash Nat} (hpeer : peers.get peer = some (n + 1)) :
    ∃ peers', State.releasePeer peers peer = .ok peers' ∧
      ∀ other, peers'.get other = if peer = other then (if n = 0 then none else some n)
        else peers.get other := by
  refine ⟨if n = 0 then peers.erase peer else peers.insert peer n, ?_, ?_⟩
  · rw [State.releasePeer, hpeer]
    rfl
  · intro other
    by_cases hzero : n = 0
    · rw [if_pos hzero, if_pos hzero, OrdMap.get_erase]
    · rw [if_neg hzero, if_neg hzero, OrdMap.get_insert]

/-- No subtraction of `drop` goes below zero. -/
theorem Exact.release (h : Exact ⟨s, p :: live⟩) :
    ∃ s', s.release p = .ok s' ∧ Exact ⟨s', live⟩ := by
  obtain ⟨hkeys, hdistinct⟩ := h.release_keys
  obtain ⟨hpublic, hrecovery, hpeers, -, -, hpublic_le, hrecovery_le, hpeer_le⟩ := h
  rw [publicLive_cons] at hpublic hpublic_le
  rw [recoveryLive_cons] at hrecovery hrecovery_le
  simp only [peerLive_cons] at hpeers hpeer_le
  cases hkind : p.recovery with
  | true =>
    simp only [hkind, if_true, reduceCtorEq, false_and, if_false, Nat.add_zero]
      at hpublic hpublic_le hrecovery hrecovery_le hpeers hpeer_le
    refine ⟨{ s with active := s.active.erase p.key, recovery := recoveryLive live }, ?_, ?_⟩
    · simp only [State.release, hkind, if_true, hrecovery]
      rfl
    · exact ⟨hpublic, rfl, hpeers, hkeys, hdistinct, hpublic_le, (Nat.le_succ _).trans hrecovery_le,
        hpeer_le⟩
  | false =>
    simp only [hkind, Bool.false_eq_true, if_false, true_and, Nat.add_zero]
      at hpublic hpublic_le hrecovery hrecovery_le hpeers hpeer_le
    have hpeer : s.peers.get p.peer = some (peerLive p.peer live + 1) := by
      simpa using hpeers p.peer
    obtain ⟨peers', hreleased, hget⟩ := State.releasePeer_eq hpeer
    refine ⟨{ s with
      active := s.active.erase p.key, publicCount := publicLive live, peers := peers' }, ?_, ?_⟩
    · simp only [State.release, hkind, Bool.false_eq_true, if_false, hpublic, hreleased]
      rfl
    · refine ⟨rfl, hrecovery, fun other => ?_, hkeys, hdistinct, (Nat.le_succ _).trans hpublic_le,
        hrecovery_le, fun other => ?_⟩
      · rw [hget]
        split
        · next heq => rw [heq]
        · next hne => simpa [hne] using hpeers other
      · exact (Nat.le_add_right _ _).trans (hpeer_le other)

theorem Exact.of_flags (h : Exact ⟨s, live⟩) (generation : U64) (stopped : Bool) :
    Exact ⟨{ s with generation, stopped }, live⟩ :=
  ⟨h.public_eq, h.recovery_eq, h.peers_eq, h.active_eq, h.distinct, h.public_le, h.recovery_le,
    h.peer_le⟩

theorem State.stop_snd (s : State) :
    ∃ generation, s.stop.2 = { s with generation, stopped := true } := by
  unfold State.stop
  dsimp only
  split
  · exact ⟨_, rfl⟩
  · exact ⟨_, rfl⟩

/-! ## Whole runs -/

theorem World.stop_snd (w : World) : w.stop.2 = { w with state := w.state.stop.2 } := by
  unfold World.stop
  rcases w.state.stop with ⟨_ | _, _⟩ <;> rfl

theorem World.acquire_cases (w : World) (peer digest : Hash) (recovery : Bool) :
    (∃ p s', w.state.acquire peer digest recovery = .ok (p, s') ∧
        w.acquire peer digest recovery = (.issued p, ⟨s', p :: w.live⟩)) ∨
      ∃ refusal, w.state.acquire peer digest recovery = .error refusal ∧
        w.acquire peer digest recovery = (.refused refusal, w) := by
  unfold World.acquire
  cases h : w.state.acquire peer digest recovery with
  | ok r => exact .inl ⟨r.1, r.2, rfl, rfl⟩
  | error refusal => exact .inr ⟨refusal, rfl, rfl⟩

theorem Exact.drop (h : Exact w) (p : Permit) : Exact (w.drop p).2 ∧ (w.drop p).1 = .done := by
  unfold World.drop
  split
  · next hlive =>
    obtain ⟨s', hreleased, hexact⟩ := (h.of_perm (List.perm_cons_erase hlive)).release
    rw [hreleased]
    exact ⟨hexact, rfl⟩
  · exact ⟨h, rfl⟩

theorem Exact.world_acquire (h : Exact w) (peer digest : Hash) (recovery : Bool) :
    Exact (w.acquire peer digest recovery).2 ∧ (w.acquire peer digest recovery).1 ≠ .panicked := by
  rcases w.acquire_cases peer digest recovery with ⟨p, s', hacquired, heq⟩ | ⟨refusal, -, heq⟩
  · rw [heq]
    exact ⟨h.acquire hacquired, nofun⟩
  · rw [heq]
    exact ⟨h, nofun⟩

theorem Exact.perform (h : Exact w) (c : Call) :
    Exact (w.perform c).2 ∧ (w.perform c).1 ≠ .panicked := by
  cases c with
  | publicAcquire peer digest => exact h.world_acquire peer digest false
  | recoveryAcquire digest => exact h.world_acquire .zero digest true
  | drop p =>
    obtain ⟨hexact, hdone⟩ := h.drop p
    exact ⟨hexact, hdone ▸ nofun⟩
  | stop =>
    refine ⟨?_, ?_⟩
    · obtain ⟨generation, hstop⟩ := w.state.stop_snd
      change Exact w.stop.2
      rw [w.stop_snd, hstop]
      exact h.of_flags generation true
    · change w.stop.1 ≠ .panicked
      unfold World.stop
      rcases w.state.stop with ⟨_ | _, _⟩ <;> nofun
  | resume => exact ⟨h.of_flags w.state.generation false, nofun⟩

theorem exact_after (calls : List Call) : Exact (World.after calls) :=
  callTurns_induction (P := fun _ w => Exact w) exact_start (fun _ _ c h => (h.perform c).1) calls

/-! ## Stops -/

def State.flags (s : State) : U64 × Bool := (s.generation, s.stopped)

theorem State.release_flags (h : s.release p = .ok s') : s'.flags = s.flags := by
  unfold State.release at h
  dsimp only at h
  split at h
  · simp only [bind_eq_ok, pure_eq_ok] at h
    obtain ⟨_, -, rfl⟩ := h
    rfl
  · simp only [bind_eq_ok, pure_eq_ok] at h
    obtain ⟨_, -, _, -, rfl⟩ := h
    rfl

theorem World.acquire_flags (w : World) (peer digest : Hash) (recovery : Bool) :
    (w.acquire peer digest recovery).2.state.flags = w.state.flags := by
  rcases w.acquire_cases peer digest recovery with ⟨p, s', hacquired, heq⟩ | ⟨refusal, -, heq⟩
  · obtain ⟨-, -, -, -, rfl⟩ := State.acquire_eq_ok.mp hacquired
    rw [heq]
    cases recovery <;> rfl
  · rw [heq]

theorem World.drop_flags (w : World) (p : Permit) : (w.drop p).2.state.flags = w.state.flags := by
  unfold World.drop
  split
  · cases hreleased : w.state.release p with
    | ok s' => exact State.release_flags hreleased
    | error e => rfl
  · rfl

/-- Only a stop starts a generation, and nothing else stops. -/
theorem World.perform_flags (hc : c ≠ .stop) :
    (w.perform c).2.state.generation = w.state.generation ∧
      (w.state.stopped = false → (w.perform c).2.state.stopped = false) := by
  have hsame {w' : World} (h : w'.state.flags = w.state.flags) :
      w'.state.generation = w.state.generation ∧
      (w.state.stopped = false → w'.state.stopped = false) :=
    ⟨congrArg Prod.fst h, (congrArg Prod.snd h).trans⟩
  cases c with
  | publicAcquire peer digest => exact hsame (w.acquire_flags peer digest false)
  | recoveryAcquire digest => exact hsame (w.acquire_flags .zero digest true)
  | drop p => exact hsame (w.drop_flags p)
  | stop => exact absurd rfl hc
  | resume => exact ⟨rfl, fun _ => rfl⟩

theorem World.generation_stop (hroom : w.state.generation.toNat + 1 < 2 ^ 64) :
    (w.perform .stop).2.state.generation.toNat = w.state.generation.toNat + 1 := by
  change w.stop.2.state.generation.toNat = _
  rw [w.stop_snd]
  simp only [State.stop]
  split
  · next hadd => simpa using hadd
  · next hadd =>
    unfold checkedAdd at hadd
    rw [if_pos (by simpa using hroom)] at hadd
    cases hadd

/-- The generation counts the stops. -/
theorem generation_afterCalls {calls : List Call}
    (hroom : w.state.generation.toNat + calls.count .stop < 2 ^ 64) :
    (afterCalls World.perform w calls).state.generation.toNat = w.state.generation.toNat +
      calls.count .stop := by
  induction calls generalizing w with
  | nil => rfl
  | cons c calls ih =>
    rw [afterCalls, List.foldl_cons]
    by_cases hc : c = .stop
    · subst hc
      rw [List.count_cons_self] at hroom ⊢
      have hstop := w.generation_stop (by omega)
      rw [← afterCalls, ih (by omega), hstop]
      omega
    · rw [List.count_cons_of_ne hc] at hroom ⊢
      have hkept := (w.perform_flags hc).1
      rw [← afterCalls, ih (by rw [hkept]; exact hroom), hkept]

theorem stopped_afterCalls (hcalls : .stop ∉ calls) (hw : w.state.stopped = false) :
    (afterCalls World.perform w calls).state.stopped = false := by
  induction calls generalizing w with
  | nil => exact hw
  | cons c calls ih =>
    obtain ⟨hc, hcalls⟩ := not_or.mp (List.mem_cons.not.mp hcalls)
    exact ih hcalls ((w.perform_flags (Ne.symm hc)).2 hw)

/-- A permit is issued in the running generation. -/
theorem World.perform_issued (h : (w.perform c).1 = .issued p) :
    c ≠ .stop ∧ w.state.stopped = false ∧ p.generation = w.state.generation := by
  have hacquire (peer digest : Hash) (recovery : Bool)
      (h : (w.acquire peer digest recovery).1 = .issued p) :
      w.state.stopped = false ∧ p.generation = w.state.generation := by
    rcases w.acquire_cases peer digest recovery with ⟨q, s', hacquired, heq⟩ | ⟨refusal, -, heq⟩
    · rw [heq] at h
      obtain rfl := Reply.issued.inj h
      obtain ⟨hstopped, -, -, rfl, -⟩ := State.acquire_eq_ok.mp hacquired
      exact ⟨hstopped, rfl⟩
    · rw [heq] at h
      cases h
  cases c with
  | publicAcquire peer digest => exact ⟨nofun, hacquire peer digest false h⟩
  | recoveryAcquire digest => exact ⟨nofun, hacquire .zero digest true h⟩
  | drop q =>
    change (w.drop q).1 = _ at h
    unfold World.drop at h
    split at h
    · split at h <;> cases h
    · cases h
  | stop =>
    change w.stop.1 = _ at h
    unfold World.stop at h
    split at h <;> cases h
  | resume => cases h

/-- A permit is cancelled exactly by the stops since it was issued, whatever is resumed. -/
theorem cancelled_iff (hissued : ((World.after before).perform c).1 = .issued p)
    (hstops : (before ++ c :: since).count .stop < 2 ^ 64) :
    (World.after (before ++ c :: since)).state.cancelled p ↔ .stop ∈ since := by
  obtain ⟨hc, hstopped, hgeneration⟩ := World.perform_issued hissued
  have hkept := World.perform_flags (w := World.after before) hc
  rw [List.count_append, List.count_cons_of_ne hc] at hstops
  have hbefore : (World.after before).state.generation.toNat = before.count .stop := by
    have hcount := @generation_afterCalls .start before (by
      change 0 + _ < _
      omega)
    exact hcount.trans (Nat.zero_add _)
  have hafter : World.after (before ++ c :: since) =
      afterCalls World.perform ((World.after before).perform c).2 since := afterCalls_append
  have hcount := @generation_afterCalls ((World.after before).perform c).2 since
    (by rw [hkept.1, hbefore]; exact hstops)
  rw [hafter, State.cancelled, Bool.or_eq_true, bne_iff_ne, hgeneration, ne_eq, ← BitVec.toNat_inj,
    hcount, hkept.1]
  by_cases hsince : .stop ∈ since
  · have hpositive := List.count_pos_iff.mpr hsince
    exact iff_of_true (.inr (by omega)) hsince
  · refine iff_of_false ?_ hsince
    rw [stopped_afterCalls hsince (hkept.2 hstopped), List.count_eq_zero_of_not_mem hsince]
    simp

/-! ## Recovery -/

/-- The calls of public traffic. -/
def Call.isPublic : Call → Bool
  | .publicAcquire _ _ => true
  | .drop p => !p.recovery
  | _ => false

/-- What a recovery request can see of a state. -/
def State.recoveryView (s : State) : State :=
  { s with publicCount := 0, peers := ∅, active := s.active.filter (·.1 = true) }

def World.recoveryView (w : World) : World := ⟨w.state.recoveryView, w.live.filter (·.recovery)⟩

theorem State.acquire_recoveryView (s : State) (digest : Hash) :
    s.recoveryView.acquire .zero digest true =
      (s.acquire .zero digest true).map fun r => (r.1, r.2.recoveryView) := by
  have hactive : ((true, digest) ∉ s.recoveryView.active) = ((true, digest) ∉ s.active) := by
    simp [State.recoveryView]
  have hgrant : s.recoveryView.grant .zero digest true =
      (s.grant .zero digest true).recoveryView := by
    simp [State.recoveryView, State.grant, Finset.filter_insert]
  have hcapacity : s.recoveryView.checkCapacity .zero true = s.checkCapacity .zero true := rfl
  have hflags : s.recoveryView.stopped = s.stopped ∧ s.recoveryView.generation = s.generation :=
    ⟨rfl, rfl⟩
  simp only [State.acquire, hactive, hgrant, hcapacity, hflags]
  cases require (s.stopped = false) Refusal.stopped with
  | error e => rfl
  | ok _ =>
    cases require ((true, digest) ∉ s.active) Refusal.duplicate with
    | error e => rfl
    | ok _ => cases s.checkCapacity .zero true <;> rfl

theorem State.release_recoveryView (s : State) (hp : p.recovery = true) :
    s.recoveryView.release p = (s.release p).map State.recoveryView := by
  have hactive : s.recoveryView.active.erase p.key = (s.active.erase p.key).filter (·.1 = true) :=
    (Finset.filter_erase _ _ _).symm
  have hrecovery : s.recoveryView.recovery = s.recovery := rfl
  simp only [State.release, hp, if_true, hactive, hrecovery]
  cases State.decrement s.recovery <;> rfl

theorem State.release_public (hp : p.recovery = false) (h : s.release p = .ok s') :
    s'.recoveryView = s.recoveryView := by
  have hactive : (s.active.erase p.key).filter (·.1 = true) = s.active.filter (·.1 = true) := by
    rw [Finset.filter_erase, Finset.erase_eq_of_notMem]
    simp [Permit.key, hp]
  simp only [State.release, hp, Bool.false_eq_true, if_false, bind_eq_ok, pure_eq_ok] at h
  obtain ⟨_, -, _, -, rfl⟩ := h
  simp only [State.recoveryView, hactive]

theorem State.stop_recoveryView (s : State) :
    s.recoveryView.stop = (s.stop.1, s.stop.2.recoveryView) := by
  unfold State.stop
  dsimp only [State.recoveryView]
  cases checkedAdd s.generation 1 Refusal.stopped <;> rfl

/-- Public traffic does not change the view. -/
theorem World.perform_public (hc : c.isPublic = true) :
    (w.perform c).2.recoveryView = w.recoveryView := by
  cases c with
  | publicAcquire peer digest =>
    rcases w.acquire_cases peer digest false with ⟨p, s', hacquired, heq⟩ | ⟨refusal, -, heq⟩
    · obtain ⟨-, -, -, rfl, rfl⟩ := State.acquire_eq_ok.mp hacquired
      change (w.acquire peer digest false).2.recoveryView = _
      rw [heq]
      simp [World.recoveryView, State.recoveryView, State.grant, Finset.filter_insert]
    · change (w.acquire peer digest false).2.recoveryView = _
      rw [heq]
  | drop p =>
    have hp : p.recovery = false := by simpa [Call.isPublic] using hc
    have hlive : (w.live.erase p).filter (·.recovery) = w.live.filter (·.recovery) := by
      rw [← List.erase_filter, List.erase_of_not_mem]
      simp [hp]
    change (w.drop p).2.recoveryView = _
    unfold World.drop
    split
    · cases hreleased : w.state.release p with
      | ok s' => simp only [World.recoveryView, hlive, State.release_public hp hreleased]
      | error e => simp only [World.recoveryView, hlive]
    · rfl
  | recoveryAcquire digest => cases hc
  | stop => cases hc
  | resume => cases hc

/-- The other calls do to the view what they do to the world, with the same reply. -/
theorem World.perform_recoveryView {c : Call} (hc : c.isPublic = false) :
    w.recoveryView.perform c = ((w.perform c).1, (w.perform c).2.recoveryView) := by
  cases c with
  | publicAcquire peer digest => cases hc
  | recoveryAcquire digest =>
    change w.recoveryView.acquire .zero digest true =
      ((w.acquire .zero digest true).1, (w.acquire .zero digest true).2.recoveryView)
    rcases w.acquire_cases .zero digest true with ⟨p, s', hacquired, heq⟩ | ⟨refusal, hrefused, heq⟩
    · obtain ⟨-, -, -, hp, -⟩ := State.acquire_eq_ok.mp hacquired
      rw [heq]
      simp [World.acquire, World.recoveryView, State.acquire_recoveryView, hacquired,
        Except.map, hp]
    · rw [heq]
      simp [World.acquire, World.recoveryView, State.acquire_recoveryView, hrefused, Except.map]
  | drop p =>
    have hp : p.recovery = true := by simpa [Call.isPublic] using hc
    change w.recoveryView.drop p = ((w.drop p).1, (w.drop p).2.recoveryView)
    have hmem : p ∈ w.recoveryView.live ↔ p ∈ w.live := by simp [World.recoveryView, hp]
    by_cases hlive : p ∈ w.live
    · simp only [World.drop, if_pos hlive, if_pos (hmem.mpr hlive)]
      simp only [World.recoveryView, State.release_recoveryView _ hp, List.erase_filter]
      cases w.state.release p <;> rfl
    · simp only [World.drop, if_neg hlive, if_neg (hmem.not.mpr hlive)]
  | stop =>
    change w.recoveryView.stop = (w.stop.1, w.stop.2.recoveryView)
    simp only [World.stop, World.recoveryView, State.stop_recoveryView]
    rcases w.state.stop with ⟨_ | _, _⟩ <;> rfl
  | resume => rfl

/-- Without the public traffic the view is the same. -/
theorem recoveryView_after (calls : List Call) :
    (World.after calls).recoveryView = (World.after (calls.filter (!·.isPublic))).recoveryView := by
  induction calls using List.reverseRecOn with
  | nil => rfl
  | append_singleton calls c ih =>
    rw [List.filter_append, World.after, World.after, afterCalls_append, afterCalls_append]
    rw [World.after, World.after] at ih
    cases hc : c.isPublic with
    | true =>
      rw [List.filter_cons_of_neg (by simp [hc]), List.filter_nil]
      exact (World.perform_public hc).trans ih
    | false =>
      rw [List.filter_cons_of_pos (by simp [hc]), List.filter_nil]
      have hleft := congrArg Prod.snd (@World.perform_recoveryView
        (afterCalls World.perform .start calls) c hc)
      have hright := congrArg Prod.snd
        (@World.perform_recoveryView (afterCalls World.perform .start (calls.filter (!·.isPublic)))
          c hc)
      exact hleft.symm.trans ((congrArg (fun w => (World.perform w c).2) ih).trans hright)

/-- The reply to a recovery request does not depend on public traffic. -/
theorem recovery_reply (calls : List Call) (digest : Hash) :
    ((World.after calls).perform (.recoveryAcquire digest)).1 =
      ((World.after (calls.filter (!·.isPublic))).perform (.recoveryAcquire digest)).1 := by
  have hview (w : World) : (w.perform (.recoveryAcquire digest)).1 =
      (w.recoveryView.perform (.recoveryAcquire digest)).1 :=
    (congrArg Prod.fst (@World.perform_recoveryView w _ rfl)).symm
  rw [hview (World.after calls), hview (World.after (calls.filter _)), recoveryView_after]

end

/-- After any interleaving the counters are those of the live permits, the bounds hold, no two live
permits of one kind share a digest, nothing has panicked, recovery is answered as if there were no
public traffic, and a permit is cancelled exactly when a stop followed it. -/
theorem admission_exact (calls : List Call) (hstops : calls.count .stop < 2 ^ 64) :
    Exact (World.after calls) ∧
      (∀ c, ((World.after calls).perform c).1 ≠ .panicked) ∧
      (∀ digest, ((World.after calls).perform (.recoveryAcquire digest)).1 =
        ((World.after (calls.filter (!·.isPublic))).perform (.recoveryAcquire digest)).1) ∧
      ∀ before c since p, calls = before ++ c :: since → ((World.after before).perform c).1 =
        .issued p → ((World.after calls).state.cancelled p ↔ .stop ∈ since) := by
  refine ⟨exact_after calls, fun c => ((exact_after calls).perform c).2, recovery_reply calls, ?_⟩
  rintro before c since p rfl hissued
  exact cancelled_iff hissued hstops

/-- A public permit is stopped and resumed, and one for recovery follows. -/
def sampleCalls : List Call :=
  [.publicAcquire (.ofByte 1) (.ofByte 2), .stop, .resume, .recoveryAcquire (.ofByte 2)]

theorem sampleCalls_admitted : (World.after sampleCalls).state.publicCount = 1 ∧
    (World.after sampleCalls).state.cancelled ⟨.ofByte 1, .ofByte 2, false, 0⟩ := by
  obtain ⟨hexact, -, -, hcancelled⟩ := admission_exact sampleCalls (by decide)
  refine ⟨hexact.public_eq.trans (by decide +kernel), ?_⟩
  exact (hcancelled [] _ _ _ rfl (by decide +kernel)).mpr (by decide)

end Trillionnium.Transport
