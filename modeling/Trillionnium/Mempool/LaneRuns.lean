import Trillionnium.Lib.Calls
import Trillionnium.Mempool.LaneSteps

/-!
# Runs of the lane gate

A run is any sequence of admissions and dequeues on a new gate.
-/

namespace Trillionnium.Mempool

open Lib LaneAdmissionGate

abbrev LaneTurn := Turn LaneAdmissionGate (LaneCall × LaneReply)

def acceptedId (t : LaneTurn) : Option U64 :=
  match t.label with
  | (.admitTx txId _, .admitted .accepted) => some txId
  | _ => none

def poppedId (t : LaneTurn) : Option U64 :=
  match t.label with
  | (_, .popped id) => id
  | _ => none

def Touches (l : IngressClass) (t : LaneTurn) : Prop :=
  (t.before.lane l).queue ≠ (t.after.lane l).queue

instance (l : IngressClass) : DecidablePred (Touches l) :=
  fun t => inferInstanceAs (Decidable ((t.before.lane l).queue ≠ (t.after.lane l).queue))

/-- The ids that a lane took in, in order. -/
def storedIn (l : IngressClass) (ts : List LaneTurn) : List U64 :=
  (ts.filter (Touches l)).filterMap acceptedId

/-- The ids that a lane gave out, in order. -/
def poppedFrom (l : IngressClass) (ts : List LaneTurn) : List U64 :=
  (ts.filter (Touches l)).filterMap poppedId

/-- What an admission answers, by the gate before it. -/
def answer (g : LaneAdmissionGate) (txId : U64) (ingress : IngressClass) : AdmitOutcome :=
  if txId ∈ g.normal.queue ∨ txId ∈ g.critical.queue then .duplicate
  else if g.qosSnapshot.freshAdmissible ingress then .accepted
  else .backpressured

/-- An accepted id is put at the end of one lane, a dequeued one is taken from the front of one
lane, and any other call leaves the gate as it is. -/
inductive Moves (t : LaneTurn) : Prop
  | stores {id : U64} (l : IngressClass) (hid : acceptedId t = some id)
      (hlane : (t.after.lane l).queue = (t.before.lane l).queue ++ [id])
      (hothers : ∀ l', l' ≠ l → t.after.lane l' = t.before.lane l')
  | pops {id : U64} (l : IngressClass) (hid : poppedId t = some id)
      (hlane : (t.before.lane l).queue = id :: (t.after.lane l).queue)
      (hothers : ∀ l', l' ≠ l → t.after.lane l' = t.before.lane l')
  | rests (haccepted : acceptedId t = none) (hpopped : poppedId t = none)
      (hsame : t.after = t.before)

/-- The gate after as many dequeues as it has ids. -/
def drained (g : LaneAdmissionGate) : LaneAdmissionGate :=
  afterCalls perform g (List.replicate g.laneTotal .popReady)

structure Exact (ts : List LaneTurn) (g : LaneAdmissionGate) : Prop where
  distinct : (g.normal.queue ++ g.critical.queue).Nodup
  fits : ∀ l, (g.lane l).queue.length ≤ (g.lane l).capacity
  total : g.normal.queue.length + g.critical.queue.length ≤ g.totalCapacity
  seen : ∀ l id, id ∈ (g.lane l).seen ↔ id ∈ (g.lane l).queue
  seenGlobal : ∀ id, id ∈ g.seenGlobal ↔ id ∈ g.normal.queue ∨ id ∈ g.critical.queue
  answers : ∀ t ∈ ts, ∀ txId ingress, t.label.1 = .admitTx txId ingress →
    t.label.2 = .admitted (answer t.before txId ingress)
  moves : ∀ t ∈ ts, Moves t
  fifo : ∀ l, storedIn l ts = poppedFrom l ts ++ (g.lane l).queue
  drains : (drained g).normal.queue = [] ∧ (drained g).critical.queue = []

section
variable {g g' : LaneAdmissionGate} {call : LaneCall} {reply : LaneReply} {ts : List LaneTurn}
  {t : LaneTurn} {l : IngressClass}

namespace LaneStep

theorem answers (h : LaneStep g (.admitTx txId ingress) reply g') :
    reply = .admitted (answer g txId ingress) := by
  have hqueued : txId ∈ g.queued ↔ txId ∈ g.normal.queue ∨ txId ∈ g.critical.queue :=
    List.mem_append
  unfold answer
  rw [freshAdmissible_qosSnapshot]
  cases h with
  | duplicate hid => rw [if_pos (hqueued.mp hid)]
  | backpressured hid hblocked => rw [if_neg (hqueued.not.mp hid), hblocked]; rfl
  | accepted hid hfresh => rw [if_neg (hqueued.not.mp hid), if_pos hfresh]

theorem moves (h : LaneStep g call reply g') : Moves ⟨g, (call, reply), g'⟩ := by
  cases h with
  | duplicate | backpressured | idle => exact .rests rfl rfl rfl
  | @accepted _ _ l =>
    refine .stores l rfl ?_ fun l' hne => ?_
    · rw [lane_store, if_pos rfl]
    · rw [lane_store, if_neg (Ne.symm hne)]
  | @popped l _ _ _ hqueue =>
    refine .pops l rfl ?_ fun l' hne => ?_
    · rw [lane_drain, if_pos rfl, hqueue]
    · rw [lane_drain, if_neg (Ne.symm hne)]

end LaneStep

/-! ## First in, first out -/

theorem storedIn_append : storedIn l (ts ++ [t]) =
    storedIn l ts ++ if Touches l t then (acceptedId t).toList else [] := by
  rw [storedIn, List.filter_append, List.filterMap_append, ← storedIn]
  by_cases h : Touches l t
  · cases hid : acceptedId t <;> simp [h, hid]
  · simp [h]

theorem poppedFrom_append : poppedFrom l (ts ++ [t]) =
    poppedFrom l ts ++ if Touches l t then (poppedId t).toList else [] := by
  rw [poppedFrom, List.filter_append, List.filterMap_append, ← poppedFrom]
  by_cases h : Touches l t
  · cases hid : poppedId t <;> simp [h, hid]
  · simp [h]

theorem poppedId_of_accepted {id : U64} (h : acceptedId t = some id) : poppedId t = none := by
  unfold acceptedId at h
  unfold poppedId
  split at h
  · next heq => rw [heq]
  · cases h

theorem acceptedId_of_popped {id : U64} (h : poppedId t = some id) : acceptedId t = none := by
  cases haccepted : acceptedId t with
  | none => rfl
  | some _ => simp [poppedId_of_accepted haccepted] at h

/-- What a lane holds and takes in is what it gives out and holds afterwards. -/
theorem Moves.balanced (h : Moves t) (l : IngressClass) :
    (t.before.lane l).queue ++ (if Touches l t then (acceptedId t).toList else []) =
      (if Touches l t then (poppedId t).toList else []) ++ (t.after.lane l).queue := by
  cases h with
  | @stores id l' hid hlane hothers =>
    by_cases hl : l = l'
    · subst hl
      have htouches : Touches l t := by simp [Touches, hlane]
      simp [htouches, hid, poppedId_of_accepted hid, hlane]
    · have hquiet : ¬ Touches l t := by simp [Touches, hothers l hl]
      simp [hquiet, hothers l hl]
  | @pops id l' hid hlane hothers =>
    by_cases hl : l = l'
    · subst hl
      have htouches : Touches l t := by simp [Touches, hlane]
      simp [htouches, hid, acceptedId_of_popped hid, hlane]
    · have hquiet : ¬ Touches l t := by simp [Touches, hothers l hl]
      simp [hquiet, hothers l hl]
  | rests haccepted hpopped hsame => simp [haccepted, hpopped, hsame]

/-! ## Draining -/

theorem LaneStep.length_queued (h : LaneStep g .popReady reply g') :
    g'.queued.length = g.queued.length - 1 := by
  cases h with
  | idle hidle => simp [hidle]
  | popped hqueue => rw [(queued_drain_perm hqueue).length_eq]; rfl

theorem queued_drained (h : Synced g) : (drained g).queued = [] := by
  have hdrain : ∀ n g, Synced g → g.queued.length = n →
      (afterCalls perform g (List.replicate n .popReady)).queued = [] := by
    intro n
    induction n with
    | zero => exact fun g _ hlength => List.length_eq_zero_iff.mp hlength
    | succ n ih =>
      intro g hg hlength
      have hstep := perform_step hg .popReady
      exact ih _ (hstep.synced hg) (by rw [hstep.length_queued, hlength]; rfl)
  rw [drained, h.laneTotal_eq]
  exact hdrain _ g h rfl

/-! ## Every run -/

/-- What a run keeps: the sets of the gate, and the account of its turns. -/
structure LaneInvariant (ts : List LaneTurn) (g : LaneAdmissionGate) : Prop where
  synced : Synced g
  answers : ∀ t ∈ ts, ∀ txId ingress, t.label.1 = .admitTx txId ingress →
    t.label.2 = .admitted (answer t.before txId ingress)
  moves : ∀ t ∈ ts, Moves t
  fifo : ∀ l, storedIn l ts = poppedFrom l ts ++ (g.lane l).queue

theorem LaneInvariant.snoc (h : LaneInvariant ts g) (call : LaneCall) :
    LaneInvariant (ts ++ [callTurn perform g call]) (g.perform call).2 := by
  have hstep := perform_step h.synced call
  have hmoves : Moves (callTurn perform g call) := hstep.moves
  refine ⟨hstep.synced h.synced, ?_, ?_, fun l => ?_⟩
  · refine List.forall_mem_append.mpr ⟨h.answers, List.forall_mem_singleton.mpr ?_⟩
    intro txId ingress hcall
    change call = _ at hcall
    subst hcall
    exact hstep.answers
  · exact List.forall_mem_append.mpr ⟨h.moves, List.forall_mem_singleton.mpr hmoves⟩
  · rw [storedIn_append, poppedFrom_append, h.fifo l, List.append_assoc, List.append_assoc]
    exact congrArg (poppedFrom l ts ++ ·) (hmoves.balanced l)

theorem LaneInvariant.exact (h : LaneInvariant ts g) : Exact ts g where
  distinct := h.synced.nodup
  fits := h.synced.laneFits
  total := List.length_append ▸ h.synced.length_queued_le
  seen := fun l id => by rw [h.synced.laneSeen l, List.mem_toFinset]
  seenGlobal := fun id => by rw [h.synced.globalSeen, List.mem_toFinset, queued, List.mem_append]
  answers := h.answers
  moves := h.moves
  fifo := h.fifo
  drains := List.append_eq_nil_iff.mp (queued_drained h.synced)

end

/-- Lane admission is exact, for every total capacity and critical reserve. -/
theorem lanes_exact (totalCapacity criticalReserve : U64) (calls : List LaneCall) :
    Exact (callTurns perform (new totalCapacity criticalReserve) calls)
      (afterCalls perform (new totalCapacity criticalReserve) calls) := by
  refine LaneInvariant.exact (callTurns_induction ?_ (fun _ _ call h => h.snoc call) calls)
  refine ⟨synced_new _ _, ?_, ?_, fun l => ?_⟩
  · exact fun t ht => by cases ht
  · exact fun t ht => by cases ht
  · cases l <;> rfl

/-!
## Fairness between the lanes

The streak counts the dequeues that served the critical lane since the last one that served the
normal lane. While the normal queue is not empty an admission leaves it alone, and a dequeue serves
the critical lane only below the burst limit; so the limit bounds how many of them follow one
another.
-/

def IsPop (t : LaneTurn) : Prop := t.label.1 = .popReady

instance : DecidablePred IsPop := fun t => inferInstanceAs (Decidable (t.label.1 = .popReady))

/-- Both queues hold an id. -/
def Backlogged (g : LaneAdmissionGate) : Prop := g.normal.queue ≠ [] ∧ g.critical.queue ≠ []

/-- Fairness in an interval of a run. -/
structure FairIn (burstLimit : Nat) (interval : List LaneTurn) : Prop where
  critical : (∀ t ∈ interval, t.before.normal.queue ≠ [] ∧ t.after.normal.queue ≠ []) →
    ∀ pops, pops <:+: interval.filter IsPop → (∀ t ∈ pops, Touches .critical t) →
      pops.length ≤ burstLimit
  normal : (∀ t ∈ interval, IsPop t → Backlogged t.before ∧ Backlogged t.after) →
    ∀ t t', [t, t'] <:+: interval.filter IsPop → ¬ (Touches .normal t ∧ Touches .normal t')

section
variable {g : LaneAdmissionGate} {l : IngressClass} {txId : U64} {ingress : IngressClass}
  {call : LaneCall} {limit : Nat}

/-! ## One call -/

theorem maybeWarmNormalFairness_false : g.maybeWarmNormalFairness false out = g :=
  if_neg (by simp)

theorem streak_admitToLanes (hnormal : g.normal.queue ≠ []) :
    (g.admitToLanes txId ingress).2.criticalServedStreak = g.criticalServedStreak := by
  have hempty : decide (g.normal.queue = []) = false := decide_eq_false hnormal
  cases ingress with
  | normal =>
    simp only [admitToLanes, hempty, maybeWarmNormalFairness_false]
    split_ifs <;> rfl
  | critical =>
    simp only [admitToLanes, hempty, maybeWarmNormalFairness_false]
    split_ifs <;> rfl

/-- An admission leaves the streak alone unless it finds the normal queue empty. -/
theorem admit_streak (h : Synced g) (hnormal : g.normal.queue ≠ []) :
    (g.admitTx txId ingress).2.criticalServedStreak = g.criticalServedStreak := by
  unfold admitTx
  split
  · rfl
  · dsimp only
    rw [h.syncSeen_eq, h.probeGlobal_eq]
    dsimp only
    rw [h.probeLocal_eq]
    dsimp only
    split
    · rfl
    · rw [finishAdmission]
      split
      · exact streak_admitToLanes hnormal
      · exact streak_admitToLanes hnormal

theorem Synced.queued_ne_nil (hnormal : g.normal.queue ≠ []) : g.queued ≠ [] :=
  fun h => hnormal (List.append_eq_nil_iff.mp h).1

/-- A dequeue changes the queue of the lane that it serves and no other. -/
theorem touches_pop (h : Synced g) (hbusy : g.queued ≠ []) :
    Touches l (callTurn perform g .popReady) ↔ g.servedLane = l := by
  obtain ⟨id, rest, streak, hqueue, -, hpop⟩ := popReady_eq h hbusy
  have hafter : (callTurn perform g .popReady).after = g.drain g.servedLane id rest streak := by
    simp [callTurn, perform, hpop]
  rw [Touches, hafter, lane_drain]
  split
  · next hlane =>
    subst hlane
    simp [callTurn, hqueue]
  · next hlane => simp [callTurn, hlane]

/-- The gate of a run: its sets are right, the normal lane has slots of its own, and the burst limit
is the one it was made with. -/
structure Tuned (limit : Nat) (g : LaneAdmissionGate) : Prop where
  synced : Synced g
  dedicated : g.normalHasDedicatedCapacity = true
  burstLimit : g.criticalBurstLimit = limit

theorem LaneStep.frame (h : LaneStep g call reply g') :
    g'.normalHasDedicatedCapacity = g.normalHasDedicatedCapacity ∧
    g'.criticalBurstLimit = g.criticalBurstLimit := by
  cases h with
  | duplicate | backpressured | idle => exact ⟨rfl, rfl⟩
  | @accepted _ _ l => cases l <;> exact ⟨rfl, rfl⟩
  | @popped l => cases l <;> exact ⟨rfl, rfl⟩

variable (h : Tuned limit g)
include h

theorem Tuned.perform (call : LaneCall) : Tuned limit (g.perform call).2 := by
  have hstep := perform_step h.synced call
  exact ⟨hstep.synced h.synced, hstep.frame.1.trans h.dedicated, hstep.frame.2.trans h.burstLimit⟩

theorem Tuned.afterCalls (calls : List LaneCall) :
    Tuned limit (Lib.afterCalls LaneAdmissionGate.perform g calls) := by
  induction calls generalizing g with
  | nil => exact h
  | cons call calls ih => exact ih (h.perform call)

theorem Tuned.servedLane_eq (hnormal : g.normal.queue ≠ []) :
    g.servedLane = if limit ≤ g.criticalServedStreak ∨ g.critical.queue = [] then .normal
      else .critical := by
  have hprefer : g.preferNormalOnPop = decide (limit ≤ g.criticalServedStreak) := by
    simp [preferNormalOnPop, h.dedicated, h.burstLimit, hnormal]
  simp [servedLane, hprefer]

/-- A dequeue that serves the critical lane beside a normal backlog was below the limit, and is
counted. -/
theorem Tuned.pop_critical (hlimit : limit ≤ usizeMax) (hnormal : g.normal.queue ≠ [])
    (hserved : g.servedLane = .critical) : g.criticalServedStreak < limit ∧
      (g.popReady.2).criticalServedStreak = g.criticalServedStreak + 1 := by
  have hbelow : g.criticalServedStreak < limit := by
    rw [h.servedLane_eq hnormal] at hserved
    split at hserved
    · cases hserved
    · next hc => exact Nat.not_le.mp (not_or.mp hc).1
  refine ⟨hbelow, ?_⟩
  obtain ⟨id, rest, streak, hqueue, hstreak, hpop⟩ :=
    popReady_eq h.synced (Synced.queued_ne_nil hnormal)
  rw [hserved] at hstreak hpop
  have hleft : (g.drain .critical id rest g.criticalServedStreak).queued ≠ [] :=
    Synced.queued_ne_nil hnormal
  rw [if_neg hleft] at hstreak
  have hrecorded : (g.drain .critical id rest g.criticalServedStreak).recordedStreak true =
      min (usizeAdd g.criticalServedStreak 1) limit := by
    rw [← h.burstLimit]
    exact if_pos h.dedicated
  rw [hpop]
  change streak = _
  rw [hstreak]
  refine hrecorded.trans ?_
  rw [usizeAdd]
  omega

/-- A dequeue that serves the normal lane and leaves both lanes a backlog puts the streak just below
the limit. -/
theorem Tuned.pop_normal (hserved : g.servedLane = .normal) (hbusy : g.queued ≠ [])
    (hleft : Backlogged g.popReady.2) : g.popReady.2.criticalServedStreak = limit - 1 := by
  obtain ⟨id, rest, streak, hqueue, hstreak, hpop⟩ := popReady_eq h.synced hbusy
  rw [hserved] at hstreak hpop
  rw [hpop] at hleft ⊢
  have hqueued : (g.drain .normal id rest g.criticalServedStreak).queued ≠ [] :=
    Synced.queued_ne_nil hleft.1
  rw [if_neg hqueued] at hstreak
  change streak = _
  rw [hstreak, ← h.burstLimit]
  exact (if_pos h.dedicated).trans (if_pos hleft)

omit h

theorem LaneStep.queue_ne_nil (h : LaneStep g (.admitTx txId ingress) reply g')
    (hbusy : (g.lane l).queue ≠ []) : (g'.lane l).queue ≠ [] := by
  cases h with
  | duplicate | backpressured => exact hbusy
  | accepted =>
    rw [lane_store]
    split
    · simp
    · exact hbusy

/-! ## The calls of an interval -/

/-- The dequeues of an interval that all serve the critical lane beside a normal backlog are counted
in the streak, up to the limit. -/
theorem Tuned.pops_le (h : Tuned limit g) (hlimit : limit ≤ usizeMax) (calls : List LaneCall)
    (hnormal : ∀ t ∈ callTurns LaneAdmissionGate.perform g calls, t.before.normal.queue ≠ [])
    (hserved : ∀ t ∈ callTurns LaneAdmissionGate.perform g calls, IsPop t → Touches .critical t) :
    g.criticalServedStreak + ((callTurns LaneAdmissionGate.perform g calls).filter IsPop).length ≤
      max g.criticalServedStreak limit := by
  induction calls generalizing g with
  | nil => simp [callTurns]
  | cons call calls ih =>
    simp only [callTurns, List.forall_mem_cons] at hnormal hserved ⊢
    have hrest := ih (h.perform call) hnormal.2 hserved.2
    cases call with
    | admitTx txId ingress =>
      have hstreak : (g.perform (.admitTx txId ingress)).2.criticalServedStreak =
          g.criticalServedStreak :=
        admit_streak h.synced hnormal.1
      rw [hstreak] at hrest
      rwa [List.filter_cons_of_neg (by simp [IsPop, callTurn])]
    | popReady =>
      have hlane := (touches_pop h.synced (Synced.queued_ne_nil hnormal.1)).mp (hserved.1 rfl)
      obtain ⟨hbelow, hstreak⟩ := h.pop_critical hlimit hnormal.1 hlane
      change (g.perform .popReady).2.criticalServedStreak = _ at hstreak
      rw [hstreak] at hrest
      rw [List.filter_cons_of_pos (by simp [IsPop, callTurn]), List.length_cons]
      omega

/-- Between two dequeues the streak and the backlogs stay. -/
theorem Tuned.streak_admissions (h : Tuned limit g) (hbusy : Backlogged g) (calls : List LaneCall)
    (hadmits : ∀ t ∈ callTurns LaneAdmissionGate.perform g calls, ¬ IsPop t) :
    (Lib.afterCalls LaneAdmissionGate.perform g calls).criticalServedStreak =
      g.criticalServedStreak := by
  induction calls generalizing g with
  | nil => rfl
  | cons call calls ih =>
    simp only [callTurns, List.forall_mem_cons] at hadmits
    cases call with
    | popReady => exact absurd rfl hadmits.1
    | admitTx txId ingress =>
      have hstep := perform_step h.synced (.admitTx txId ingress)
      have hbusy' : Backlogged (g.perform (.admitTx txId ingress)).2 :=
        ⟨hstep.queue_ne_nil (l := .normal) hbusy.1, hstep.queue_ne_nil (l := .critical) hbusy.2⟩
      exact (ih (h.perform _) hbusy' hadmits.2).trans (admit_streak h.synced hbusy.1)

/-- After a dequeue that served the normal lane and left both backlogs, the next one serves the
critical lane. -/
theorem Tuned.next_pop (h : Tuned limit g) (hlimit : 0 < limit) (hbusy : Backlogged g)
    (hleft : Backlogged (g.perform .popReady).2)
    (hfirst : Touches .normal (callTurn LaneAdmissionGate.perform g .popReady))
    (hadmits : ∀ t ∈ callTurns LaneAdmissionGate.perform (g.perform .popReady).2 calls, ¬ IsPop t)
    (hnext : Backlogged (Lib.afterCalls LaneAdmissionGate.perform (g.perform .popReady).2 calls)) :
    ¬ Touches .normal (callTurn LaneAdmissionGate.perform
      (Lib.afterCalls LaneAdmissionGate.perform (g.perform .popReady).2 calls) .popReady) := by
  have hqueued : g.queued ≠ [] := Synced.queued_ne_nil hbusy.1
  have hstreak : (g.perform .popReady).2.criticalServedStreak = limit - 1 :=
    h.pop_normal ((touches_pop h.synced hqueued).mp hfirst) hqueued hleft
  have hkept := (h.perform .popReady).streak_admissions hleft calls hadmits
  have hthen := (h.perform .popReady).afterCalls calls
  rw [touches_pop hthen.synced (Synced.queued_ne_nil hnext.1), hthen.servedLane_eq hnext.1, hkept,
    hstreak, if_neg]
  · nofun
  · exact not_or.mpr ⟨by omega, hnext.2⟩

theorem Tuned.alternates (h : Tuned limit g) (hlimit : 0 < limit)
    (hpops : (callTurns LaneAdmissionGate.perform g calls).filter IsPop = [t, t'])
    (hbusy : ∀ u ∈ [t, t'], Backlogged u.before ∧ Backlogged u.after) (hfirst : Touches .normal t) :
    ¬ Touches .normal t' := by
  -- The interval is cut at its two dequeues.
  obtain ⟨front, rest, hcut, -, hpop, hrest⟩ := List.filter_eq_cons_iff.mp hpops
  obtain ⟨between, rest', rfl, hbetween, hpop', -⟩ := List.filter_eq_cons_iff.mp hrest
  obtain ⟨calls₁, call, calls₂, -, rfl, htail⟩ := callTurns_split hcut
  obtain ⟨calls₃, call', calls₄, rfl, rfl, -⟩ := callTurns_split htail.symm
  obtain rfl : call = .popReady := of_decide_eq_true hpop
  obtain rfl : call' = .popReady := of_decide_eq_true hpop'
  simp only [List.forall_mem_cons, List.not_mem_nil, false_imp_iff, implies_true, and_true] at hbusy
  obtain ⟨⟨hbefore, hafter⟩, hnext, -⟩ := hbusy
  exact (h.afterCalls calls₁).next_pop hlimit hbefore hafter hfirst
    (fun u hu => by simpa using hbetween u hu) hnext

end

/-- Between the two lanes no run is unfair for longer than the burst limit. -/
theorem lanes_fair (totalCapacity criticalReserve : U64)
    (hdedicated : (new totalCapacity criticalReserve).normalHasDedicatedCapacity = true)
    (calls : List LaneCall) (interval : List LaneTurn)
    (hinterval : interval <:+: callTurns perform (new totalCapacity criticalReserve) calls) :
    FairIn (new totalCapacity criticalReserve).criticalBurstLimit interval := by
  have hstart : Tuned (new totalCapacity criticalReserve).criticalBurstLimit
      (new totalCapacity criticalReserve) :=
    ⟨synced_new _ _, hdedicated, rfl⟩
  have hlimit : (new totalCapacity criticalReserve).criticalBurstLimit ≤ usizeMax :=
    max_le (min_le_right _ _) (by decide)
  have hpositive : 0 < (new totalCapacity criticalReserve).criticalBurstLimit :=
    Nat.lt_of_lt_of_le Nat.one_pos (le_max_right _ _)
  generalize (new totalCapacity criticalReserve).criticalBurstLimit =
    limit at hstart hlimit hpositive ⊢
  refine ⟨fun hnormal pops hpops hserved => ?_, fun hbusy t t' hpops hserved => ?_⟩
  · obtain ⟨part, hpart, rfl⟩ := exists_infix_filter hpops
    obtain ⟨calls₁, calls₂, rfl⟩ := callTurns_of_infix (hpart.trans hinterval)
    have hle := (hstart.afterCalls calls₁).pops_le hlimit calls₂ (fun t ht =>
      (hnormal t (hpart.subset ht)).1)
      fun t ht hpop => hserved t (List.mem_filter.mpr ⟨ht, decide_eq_true hpop⟩)
    omega
  · obtain ⟨part, hpart, heq⟩ := exists_infix_filter hpops
    obtain ⟨calls₁, calls₂, rfl⟩ := callTurns_of_infix (hpart.trans hinterval)
    refine (hstart.afterCalls calls₁).alternates hpositive heq (fun u hu => ?_) hserved.1 hserved.2
    obtain ⟨hmem, hpop⟩ := List.mem_filter.mp (heq ▸ hu)
    exact hbusy u (hpart.subset hmem) (of_decide_eq_true hpop)

/-- Four slots of their own for the normal lane and two for the critical one, with a backlog in
both. -/
def sampleBacklog : List LaneCall :=
  [.admitTx 1 .normal, .admitTx 2 .normal, .admitTx 3 .critical, .admitTx 4 .critical]

def sampleInterval : List LaneTurn :=
  (callTurns perform (new 6 2) (sampleBacklog ++ [.popReady, .admitTx 5 .critical, .popReady])).drop
    4

theorem sampleInterval_fair : (new 6 2).normalHasDedicatedCapacity = true ∧
    (∀ t ∈ sampleInterval, Backlogged t.before ∧ Backlogged t.after) ∧
      FairIn (new 6 2).criticalBurstLimit sampleInterval :=
  ⟨rfl, by unfold Backlogged; decide +kernel, lanes_fair 6 2 rfl _ _ (List.drop_suffix _ _).isInfix⟩

end Trillionnium.Mempool
