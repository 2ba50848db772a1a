import Trillionnium.Lib.Trace
import Trillionnium.WorkerAgent.Acks
import Trillionnium.Lib.Delimited
import Mathlib.Logic.Equiv.List

/-!
# Acks under interleaving

The lock file serializes the processes of one task, but all tasks share the log, and another record
can come between a record and its newline: the two then are one line that does not parse, and both
acks are lost. As long as records are appended at the start of a line, every ack stays, no task is
submitted again after its accepted ack, and no two processes submit one task at a time.
-/

namespace Trillionnium.WorkerAgent

open Lib Lib.Text Lib.Lines

/-! ## The log -/

section
variable {codec : AckCodec} {log line : List Char} {ack ack' : AckRecord}

theorem trim_ne_empty (h : line.head? = some '\x7b') : trim (String.ofList line) ≠ "" := by
  obtain ⟨rest, rfl⟩ : ∃ rest, line = '\x7b' :: rest := by
    cases line with
    | nil => cases h
    | cons c rest =>
      obtain rfl := Option.some.inj h
      exact ⟨rest, rfl⟩
  intro hempty
  have hchars := congrArg String.toList hempty
  have hfirst : isWhitespace '\x7b' = false := by decide
  -- the brace is not dropped from either end
  simp only [trim, String.toList_ofList, List.dropWhile_cons, hfirst, Bool.false_eq_true, if_false,
    String.toList_empty, List.reverse_eq_nil_iff, List.dropWhile_eq_nil_iff,
    List.mem_reverse] at hchars
  exact absurd (hchars '\x7b' List.mem_cons_self) (by simp [hfirst])

/-- A line of one record among those of a log. -/
theorem filterMap_line :
    ((before ++ [codec.toJson ack]).filter fun line => trim (String.ofList line) ≠ "").filterMap
        codec.fromJson =
      (before.filter fun line => trim (String.ofList line) ≠ "").filterMap codec.fromJson ++
        [ack] := by
  have hne := trim_ne_empty (codec.opened ack)
  rw [List.filter_append, List.filterMap_append]
  simp [hne, codec.fromJson_toJson]

theorem toJson_ne_nil : codec.toJson ack ≠ [] := by
  intro h
  have hopened := codec.opened ack
  rw [h] at hopened
  cases hopened

/-- A record at the start of a line is read back at once. -/
theorem loadAckRecords_append (hlog : AtLineStart log) :
    loadAckRecords codec (log ++ codec.toJson ack) = loadAckRecords codec log ++ [ack] := by
  rw [loadAckRecords, lines_append hlog (codec.newline_free ack) toJson_ne_nil]
  exact filterMap_line

theorem loadAckRecords_newline (hlog : AtLineStart log) :
    loadAckRecords codec (log ++ codec.toJson ack ++ ['\n']) =
      loadAckRecords codec log ++ [ack] := by
  have hreturn : (codec.toJson ack).getLast? ≠ some '\r' := by
    rw [codec.closed]
    decide
  rw [loadAckRecords, lines_append_newline hlog (codec.newline_free ack) hreturn]
  exact filterMap_line

theorem not_atLineStart_toJson : ¬ AtLineStart (log ++ codec.toJson ack) := by
  rintro (hnil | hlast)
  · exact toJson_ne_nil (List.append_eq_nil_iff.mp hnil).2
  · rw [List.getLast?_append, codec.closed] at hlast
    simp at hlast

end

/-! ## Steps -/

/-- The task whose lock file the process holds. -/
def Stage.task : Stage → Option U64
  | idle | locking _ => none
  | checking job | committing job | revealing job _ | classifying job _ _ | hashing job _ _ _
  | writing job _ | ending job _ | written job _ | leaving job => some job.taskId

/-- The task that the process is running the adapter for. -/
def Stage.runs : Stage → Option U64
  | committing job | revealing job _ => some job.taskId
  | _ => none

/-- The task that the process found without an ack and has not acked yet. -/
def Stage.due : Stage → Option U64
  | committing job | revealing job _ | classifying job _ _ | hashing job _ _ _ | writing job _ =>
    some job.taskId
  | _ => none

/-- The ack of a process is for its task. -/
def Stage.Own : Stage → Prop
  | writing job ack | ending job ack | written job ack => ack.taskId = job.taskId
  | _ => True

theorem Stage.due_of_runs {stage : Stage} (h : stage.runs = some t) : stage.due = some t := by
  cases stage <;> first | exact h | cases h

theorem Stage.task_of_due {stage : Stage} (h : stage.due = some t) : stage.task = some t := by
  cases stage <;> first | exact h | cases h

section
variable {codec : AckCodec} {text : ReceiptText} {s : Fleet} {p q : Nat} {st : Stage} {t : U64}

@[simp] theorem stage_goto : (s.goto p st).stage q = if q = p then st else s.stage q := by
  simp only [Fleet.goto, Fleet.stage, Function.update_apply]
  split <;> rfl

@[simp] theorem stage_remember : (s.remember p t).stage q = s.stage q := by
  simp only [Fleet.remember, Fleet.stage, Function.update_apply]
  split
  · next h => rw [h]
  · rfl

@[simp] theorem stage_record : (s.record deed).stage q = s.stage q := rfl

@[simp] theorem stage_release : (s.release t).stage q = s.stage q := rfl

@[simp] theorem acks_record : (s.record deed).acks = s.acks ++ deed.ack.toList := by
  simp only [Fleet.acks, Fleet.record, List.filterMap_append]
  cases deed <;> rfl

/-- What an event does when it finds its process where it expects it. -/
inductive FleetStep (codec : AckCodec) (s : Fleet) : FleetEvent → Fleet → Prop where
  | stay : FleetStep codec s event s
  | enter {p : Nat} : s.stage p = .idle →
      FleetStep codec s (.enter p job) (s.goto p (.locking job))
  | busy {p : Nat} : s.stage p = .locking job → FleetStep codec s (.lock p) (s.goto p .idle)
  | lock {p : Nat} : s.stage p = .locking job → job.taskId ∉ s.locks →
      FleetStep codec s (.lock p) { s.goto p (.checking job) with locks := job.taskId :: s.locks }
  | skip {p : Nat} : s.stage p = .checking job →
      FleetStep codec s (.check p) ((s.remember p job.taskId).goto p (.leaving job))
  | commit {p : Nat} : s.stage p = .checking job →
      isTaskAcked codec s.log job.taskId = false →
      FleetStep codec s (.check p) ((s.goto p (.committing job)).record
        (.invoked p job.taskId args))
  | abort {p : Nat} :
      (s.stage p).due = some job.taskId →
      FleetStep codec s (.adapter p result) (s.goto p (.leaving job))
  | reveal {p : Nat} : s.stage p = .committing job →
      FleetStep codec s (.adapter p (some commitRes))
        ((s.goto p (.revealing job commitRes)).record (.invoked p job.taskId args))
  | answered {p : Nat} : (s.stage p).due = some job.taskId →
      FleetStep codec s (.adapter p result) (s.goto p (.classifying job commitRes revealRes))
  | classify {p : Nat} : (s.stage p).due = some job.taskId →
      FleetStep codec s (.classify p) (s.goto p (.hashing job commitRes revealRes verdict))
  | hashes {p : Nat} {ack : AckRecord} : (s.stage p).due = some job.taskId →
      ack.taskId = job.taskId → FleetStep codec s (.hashes p nowMs) (s.goto p (.writing job ack))
  | write {p : Nat} {ack : AckRecord} : s.stage p = .writing job ack →
      FleetStep codec s (.write p)
        { (s.goto p (.ending job ack)).record (.wrote p ack) with log := s.log ++ codec.toJson ack }
  | newline {p : Nat} {ack : AckRecord} : s.stage p = .ending job ack →
      FleetStep codec s (.newline p) { s.goto p (.written job ack) with log := s.log ++ ['\n'] }
  | leave {p : Nat} {t : U64} : (s.stage p).task = some t →
      FleetStep codec s (.leave p failed) ((s.goto p .idle).release t)
  | remember {p : Nat} {t : U64} : (s.stage p).task = some t →
      FleetStep codec s (.leave p failed) (((s.remember p t).goto p .idle).release t)

theorem fleetStep (event : FleetEvent) : FleetStep codec s event (s.step codec text event) := by
  cases event with
  | enter p job =>
    simp only [Fleet.step]
    split
    · next hstage =>
      split
      · exact .stay
      · exact .enter hstage
    · exact .stay
  | lock p =>
    simp only [Fleet.step]
    split
    · next job hstage =>
      split
      · exact .busy hstage
      · next hfree => exact .lock hstage hfree
    · exact .stay
  | check p =>
    simp only [Fleet.step]
    split
    · next job hstage =>
      split
      · exact .skip hstage
      · next hacked => exact .commit hstage (by simpa using hacked)
    · exact .stay
  | adapter p result =>
    simp only [Fleet.step]
    split
    · next job hstage => exact .abort (by rw [hstage]; rfl)
    · next job commitRes hstage =>
      split
      · exact .reveal hstage
      · exact .answered (by rw [hstage]; rfl)
    · next job commitRes hstage => exact .abort (by rw [hstage]; rfl)
    · next job commitRes revealRes hstage => exact .answered (by rw [hstage]; rfl)
    · exact .stay
  | classify p =>
    simp only [Fleet.step]
    split
    · next job commitRes revealRes hstage => exact .classify (by rw [hstage]; rfl)
    · exact .stay
  | hashes p nowMs =>
    simp only [Fleet.step]
    split
    · next job commitRes revealRes status reason hstage => exact .hashes (by rw [hstage]; rfl) rfl
    · exact .stay
  | write p =>
    simp only [Fleet.step]
    split
    · next job ack hstage => exact .write hstage
    · exact .stay
  | newline p =>
    simp only [Fleet.step]
    split
    · next job ack hstage => exact .newline hstage
    · exact .stay
  | leave p failed =>
    simp only [Fleet.step]
    split
    · next job hstage => exact .leave (by rw [hstage]; rfl)
    · next job ack hstage =>
      split
      · exact .remember (by rw [hstage]; rfl)
      · exact .leave (by rw [hstage]; rfl)
    · exact .stay

end

/-! ## What aligned runs keep -/

def AckRecord.Accepted (ack : AckRecord) : Prop := ack.status = "accepted"

/-- No accepted ack among them is for the task. -/
def Unacked (t : U64) (acks : List AckRecord) : Prop := ∀ ack ∈ acks, ack.Accepted → ack.taskId ≠ t

variable {ack : AckRecord}

section
variable {codec : AckCodec} {text : ReceiptText} {base : List AckRecord} {s : Fleet} {p : Nat}
  {st : Stage} {t : U64}

theorem isTaskAcked_eq_false :
    isTaskAcked codec s.log t = false ↔ Unacked t (loadAckRecords codec s.log) := by
  rw [isTaskAcked, ← Bool.not_eq_true, decide_eq_true_eq, loadAcked, List.mem_map]
  simp only [List.mem_filter, decide_eq_true_eq, not_exists, not_and, and_imp]
  rfl

/-- Locks are held by one process each, the log reads as what was in it and every ack since, and a
task in the hands of the adapter has no accepted ack. -/
structure Kept (codec : AckCodec) (base : List AckRecord) (s : Fleet) : Prop where
  held : ∀ p t, (s.stage p).task = some t → t ∈ s.locks
  exclusive : ∀ p q t, (s.stage p).task = some t → (s.stage q).task = some t → p = q
  own : ∀ p, (s.stage p).Own
  loads : loadAckRecords codec s.log = base ++ s.acks
  ending : ∀ p job ack, s.stage p = .ending job ack →
    (∃ before, AtLineStart before ∧ s.log = before ++ codec.toJson ack) ∧
    ∀ q job' ack', s.stage q = .ending job' ack' → q = p
  due : ∀ p t, (s.stage p).due = some t → Unacked t (base ++ s.acks)
  once : s.acks.Pairwise fun a b => a.Accepted → b.Accepted → a.taskId ≠ b.taskId
  order : ∀ a d b, s.trace = a ++ d :: b → ∀ p t args, d = .invoked p t args →
    Unacked t (a.filterMap Deed.ack)

/-- The lock that the process needs at a stage is there, and no other process holds it. -/
def Holds (s : Fleet) (p : Nat) (st : Stage) : Prop :=
  ∀ t, st.task = some t → t ∈ s.locks ∧ ∀ q, (s.stage q).task = some t → q = p

namespace Kept

variable (h : Kept codec base s)
include h

theorem holds (ht : (s.stage p).task = some t) (hst : st.task = some t) : Holds s p st := by
  intro t' ht'
  obtain rfl := Option.some.inj (hst.symm.trans ht')
  exact ⟨h.held p t ht, fun q hq => h.exclusive q p t hq ht⟩

theorem goto_locks (htask : Holds s p st) (hown : st.Own) :
    (∀ q t, ((s.goto p st).stage q).task = some t → t ∈ s.locks) ∧
      (∀ q q' t, ((s.goto p st).stage q).task = some t → ((s.goto p st).stage q').task = some t →
        q = q') ∧
      ∀ q, ((s.goto p st).stage q).Own := by
  refine ⟨fun q t hq => ?_, fun q q' t hq hq' => ?_, fun q => ?_⟩
  · rw [stage_goto] at hq
    split at hq
    · exact (htask t hq).1
    · exact h.held q t hq
  · rw [stage_goto] at hq hq'
    split at hq
    · next heq =>
      split at hq'
      · next heq' => rw [heq, heq']
      · next hne => exact absurd ((htask t hq).2 q' hq') hne
    · next hne =>
      split at hq'
      · exact absurd ((htask t hq').2 q hq) hne
      · exact h.exclusive q q' t hq hq'
  · rw [stage_goto]
    split
    · exact hown
    · exact h.own q

/-- A process goes on. -/
theorem goto (htask : Holds s p st) (hown : st.Own) (hending : ∀ job ack, st ≠ .ending job ack)
    (hdue : ∀ t, st.due = some t → Unacked t (base ++ s.acks)) : Kept codec base (s.goto p st) := by
  obtain ⟨hheld, hexclusive, hown⟩ := h.goto_locks htask hown
  refine ⟨hheld, hexclusive, hown, h.loads, fun q job ack hq => ?_, fun q t hq =>
    ?_, h.once, h.order⟩
  · rw [stage_goto] at hq
    split at hq
    · exact absurd hq (hending job ack)
    · obtain ⟨hlog, hunique⟩ := h.ending q job ack hq
      refine ⟨hlog, fun q' job' ack' hq' => ?_⟩
      rw [stage_goto] at hq'
      split at hq'
      · exact absurd hq' (hending job' ack')
      · exact hunique q' job' ack' hq'
  · rw [stage_goto] at hq
    split at hq
    · exact hdue t hq
    · exact h.due q t hq

theorem remember : Kept codec base (s.remember p t) := by
  refine ⟨?_, ?_, ?_, h.loads, ?_, ?_, h.once, h.order⟩
  all_goals simp only [stage_remember]
  exacts [h.held, h.exclusive, h.own, h.ending, h.due]

theorem invoke (ht : Unacked t s.acks) : Kept codec base (s.record (.invoked p t args)) := by
  have hacks : (s.record (.invoked p t args)).acks = s.acks := by
    rw [acks_record]
    exact List.append_nil _
  refine ⟨h.held, h.exclusive, h.own, ?_, h.ending, ?_, ?_, ?_⟩
  · rw [hacks]
    exact h.loads
  · rw [hacks]
    exact h.due
  · rw [hacks]
    exact h.once
  · refine forall_split_snoc h.order ?_
    intro p' t' args' heq
    obtain ⟨-, rfl, -⟩ := Deed.invoked.inj heq
    exact ht

theorem release (hfree : ∀ q, (s.stage q).task ≠ some t) : Kept codec base (s.release t) where
  __ := h
  held q t' hq := by
    refine List.mem_filter.mpr ⟨h.held q t' hq, decide_eq_true ?_⟩
    rintro rfl
    exact hfree q hq

theorem idle : Kept codec base (s.goto p .idle) :=
  h.goto (by simp [Holds, Stage.task]) (by simp [Stage.Own]) (by simp) (by simp [Stage.due])

theorem leave (ht : (s.stage p).task = some t) : Kept codec base ((s.goto p .idle).release t) := by
  refine h.idle.release fun q hq => ?_
  rw [stage_goto] at hq
  split at hq
  · cases hq
  · next hne => exact hne (h.exclusive q p t hq ht)

variable {job : Job}

/-- The lock file did not exist, so no process holds it. -/
theorem lock (hfree : job.taskId ∉ s.locks) :
    Kept codec base { s.goto p (.checking job) with locks := job.taskId :: s.locks } := by
  have hcreated : Kept codec base { s with locks := job.taskId :: s.locks } :=
    { h with held := fun q t hq => List.mem_cons_of_mem _ (h.held q t hq) }
  have htask : Holds { s with locks := job.taskId :: s.locks } p (.checking job) := by
    rintro _ ⟨⟩
    exact ⟨List.mem_cons_self, fun q hq => absurd (h.held q _ hq) hfree⟩
  exact hcreated.goto htask (by simp [Stage.Own]) (by simp) (by simp [Stage.due])

/-- The adapter answers, and the log is read. -/
theorem proceed (hdue : (s.stage p).due = some job.taskId) (htask : st.task = some job.taskId)
    (hdue' : st.due = some job.taskId ∨ st.due = none) (hown : st.Own)
    (hending : ∀ job ack, st ≠ .ending job ack) : Kept codec base (s.goto p st) := by
  refine h.goto (h.holds (Stage.task_of_due hdue) htask) hown hending fun t ht => ?_
  rcases hdue' with hdue' | hdue'
  · obtain rfl := Option.some.inj (hdue'.symm.trans ht)
    exact h.due p _ hdue
  · rw [hdue'] at ht
    cases ht

/-- The record goes to the start of a line. No process has a newline to write there, and the task
has no accepted ack. -/
theorem write (hstage : s.stage p = .writing job ack) (hstart : AtLineStart s.log) :
    Kept codec base { (s.goto p (.ending job ack)).record (.wrote p ack) with
      log := s.log ++ codec.toJson ack } := by
  have hnone : ∀ q job' ack', s.stage q ≠ .ending job' ack' := by
    intro q job' ack' hq
    obtain ⟨⟨before, -, hlog⟩, -⟩ := h.ending q job' ack' hq
    rw [hlog] at hstart
    exact not_atLineStart_toJson hstart
  have hstages : ∀ q, Fleet.stage
      { (s.goto p (.ending job ack)).record (.wrote p ack) with
        log := s.log ++ codec.toJson ack } q =
      if q = p then .ending job ack else s.stage q := fun q => stage_goto
  have hacks : Fleet.acks
      { (s.goto p (.ending job ack)).record (.wrote p ack) with log := s.log ++ codec.toJson ack } =
      s.acks ++ [ack] := acks_record
  have htask : (s.stage p).task = some job.taskId := by
    rw [hstage]
    rfl
  have hunacked : Unacked job.taskId (base ++ s.acks) := h.due p _ (by rw [hstage]; rfl)
  have hown : ack.taskId = job.taskId := by
    have hown := h.own p
    rwa [hstage] at hown
  obtain ⟨hheld, hexclusive, howns⟩ := @goto_locks _ _ _ _ (.ending job ack) h
    (h.holds htask rfl) hown
  refine ⟨hheld, hexclusive, howns, ?_, fun q job' ack' hq => ?_, fun q t hq => ?_, ?_, ?_⟩
  · rw [hacks, loadAckRecords_append hstart, h.loads, List.append_assoc]
  · rw [hstages] at hq
    split at hq
    · next heq =>
      obtain ⟨-, rfl⟩ := Stage.ending.inj hq
      refine ⟨⟨s.log, hstart, rfl⟩, fun q' job'' ack'' hq' => ?_⟩
      rw [hstages] at hq'
      split at hq'
      · next heq' => rw [heq, heq']
      · exact absurd hq' (hnone q' job'' ack'')
    · exact absurd hq (hnone q job' ack')
  · rw [hstages] at hq
    split at hq
    · cases hq
    · next hne =>
      -- the ack is for the task of this process, and the other one holds another
      have hother : job.taskId ≠ t := by
        rintro rfl
        exact hne (h.exclusive q p _ (Stage.task_of_due hq) htask)
      rw [hacks, ← List.append_assoc]
      refine List.forall_mem_append.mpr ⟨h.due q t hq, List.forall_mem_singleton.mpr fun _ => ?_⟩
      rwa [hown]
  · rw [hacks]
    refine List.pairwise_append.mpr ⟨h.once, List.pairwise_singleton _ _,
      fun a ha b hb haccepted _ => ?_⟩
    obtain rfl := List.mem_singleton.mp hb
    rw [hown]
    exact hunacked a (List.mem_append_right _ ha) haccepted
  · refine forall_split_snoc h.order ?_
    intro p' t args heq
    cases heq

/-- The line of the record ends. -/
theorem newline (hstage : s.stage p = .ending job ack) :
    Kept codec base { s.goto p (.written job ack) with log := s.log ++ ['\n'] } := by
  obtain ⟨⟨before, hstart, hlog⟩, hunique⟩ := h.ending p job ack hstage
  have hloads : loadAckRecords codec (s.log ++ ['\n']) = loadAckRecords codec s.log := by
    rw [hlog, loadAckRecords_newline hstart, loadAckRecords_append hstart]
  have hgone : Kept codec base (s.goto p (.written job ack)) := by
    refine h.goto (h.holds (by rw [hstage]; rfl) rfl) ?_ (by simp) (by simp [Stage.due])
    have hown := h.own p
    rwa [hstage] at hown
  refine { hgone with
    loads := hloads.trans h.loads
    ending := fun q job' ack' hq => ?_ }
  have hq : (s.goto p (.written job ack)).stage q = .ending job' ack' := hq
  rw [stage_goto] at hq
  split at hq
  · cases hq
  · next hne => exact absurd (hunique q job' ack' hq) hne

end Kept

/-- A record is written at the start of a line only. -/
def Aligned (s : Fleet) : FleetEvent → Prop
  | .write p => ∀ job ack, s.stage p = .writing job ack → AtLineStart s.log
  | _ => True

theorem Kept.step (h : Kept codec base s) (haligned : Aligned s event) :
    Kept codec base (s.step codec text event) := by
  have hstep : FleetStep codec s event (s.step codec text event) := fleetStep event
  revert hstep
  generalize s.step codec text event = s'
  intro hstep
  cases hstep with
  | stay => exact h
  | enter =>
    exact h.goto (by simp [Holds, Stage.task]) (by simp [Stage.Own]) (by simp) (by simp [Stage.due])
  | busy => exact h.idle
  | lock _ hfree => exact h.lock hfree
  | skip hstage =>
    exact h.remember.goto (h.remember.holds (by rw [stage_remember, hstage]; rfl) rfl)
      (by simp [Stage.Own]) (by simp) (by simp [Stage.due])
  | commit hstage hacked =>
    have hunacked := isTaskAcked_eq_false.mp hacked
    rw [h.loads] at hunacked
    refine Kept.invoke (h.goto (h.holds (by rw [hstage]; rfl) rfl) (by simp [Stage.Own]) (by simp)
      fun t ht => ?_) fun ack hack => hunacked ack (List.mem_append_right _ hack)
    obtain rfl := Option.some.inj ht
    exact hunacked
  | abort hdue => exact h.proceed hdue rfl (.inr rfl) (by simp [Stage.Own]) (by simp)
  | @reveal job _ _ p hstage =>
    have hdue : (s.stage p).due = some job.taskId := by
      rw [hstage]
      rfl
    refine Kept.invoke (h.proceed hdue rfl (.inl rfl) (by simp [Stage.Own]) (by simp))
      fun ack hack => ?_
    exact h.due p _ hdue ack (List.mem_append_right _ hack)
  | answered hdue | classify hdue =>
    exact h.proceed hdue rfl (.inl rfl) (by simp [Stage.Own]) (by simp)
  | hashes hdue hown => exact h.proceed hdue rfl (.inl rfl) hown (by simp)
  | write hstage => exact h.write hstage (haligned _ _ hstage)
  | newline hstage => exact h.newline hstage
  | leave ht => exact h.leave ht
  | remember ht => exact h.remember.leave (by rwa [stage_remember])

/-- Every event of the run is aligned where it happens. -/
def AlignedRun (codec : AckCodec) (text : ReceiptText) (s : Fleet) : List FleetEvent → Prop
  | [] => True
  | event :: events => Aligned s event ∧ AlignedRun codec text (s.step codec text event) events

theorem Kept.run (h : Kept codec base s)
    (haligned : AlignedRun codec text s events) : Kept codec base (s.run codec text events) := by
  induction events generalizing s with
  | nil => exact h
  | cons event events ih => exact ih (h.step haligned.1) haligned.2

theorem kept_start : Kept codec (loadAckRecords codec log) (.start log locks acked) := by
  refine ⟨?_, ?_, ?_, ?_, ?_, ?_, .nil, ?_⟩
  all_goals simp [Fleet.start, Fleet.stage, Fleet.acks, Stage.task, Stage.due, Stage.Own]

/-- While records are appended at the start of a line, a load reads every ack that was written, the
adapter is not invoked for a task that has an accepted ack, each task gets one at most, and one
process at most runs the adapter for it. -/
theorem acks_are_kept {log : List Char} {locks : List U64} {acked : Nat → List U64}
    {events : List FleetEvent} (haligned : AlignedRun codec text (.start log locks acked) events) :
    let s := (Fleet.start log locks acked).run codec text events
    loadAckRecords codec s.log = loadAckRecords codec log ++ s.acks ∧
    (∀ ack ∈ s.acks, ack.Accepted → ack.taskId ∈ loadAcked codec s.log) ∧
    (∀ a p t args b, s.trace = a ++ .invoked p t args :: b → Unacked t (a.filterMap Deed.ack)) ∧
    (∀ p t, (s.stage p).runs = some t → Unacked t s.acks) ∧
    (s.acks.Pairwise fun a b => a.Accepted → b.Accepted → a.taskId ≠ b.taskId) ∧
    ∀ p q t, (s.stage p).runs = some t → (s.stage q).runs = some t → p = q := by
  intro s
  have h : Kept codec (loadAckRecords codec log) s := kept_start.run haligned
  refine ⟨h.loads, fun ack hack haccepted => ?_, fun a p t args b hsplit => ?_, fun p t hruns =>
    ?_, h.once, fun p q t hp hq => ?_⟩
  · refine List.mem_map.mpr ⟨ack, List.mem_filter.mpr ⟨?_, decide_eq_true haccepted⟩, rfl⟩
    rw [h.loads]
    exact List.mem_append_right _ hack
  · exact h.order a _ b hsplit p t args rfl
  · intro ack hack
    exact h.due p t (Stage.due_of_runs hruns) ack (List.mem_append_right _ hack)
  · exact h.exclusive p q t (Stage.task_of_due (Stage.due_of_runs hp))
      (Stage.task_of_due (Stage.due_of_runs hq))

end

/-! ## One codec and two runs -/

instance encodableString : Encodable String :=
  .ofLeftInverse (fun s => s.toList.map Char.toNat) (fun l => .ofList (l.map Char.ofNat))
    fun s => by simp [Function.comp_def]

instance encodableBitVec : Encodable (BitVec w) := .ofLeftInverse BitVec.toNat (.ofNat w) (by simp)

section
variable {α : Type} [Encodable α] {a : α}

/-- A value as a number in braces. -/
def braced (a : α) : List Char := '\x7b' :: ((toString (Encodable.encode a)).toList ++ ['\x7d'])

def readBraced (line : List Char) : Option α :=
  (Encodable.decode (Nat.ofDigitChars 10 line.tail.dropLast 0)).filter (braced · = line)

theorem readBraced_eq_some : readBraced line = some a ↔ braced a = line := by
  simp only [readBraced, Option.filter_eq_some_iff, decide_eq_true_eq, and_iff_right_iff_imp]
  rintro rfl
  rw [braced, List.tail_cons, List.dropLast_concat, Delimited.ofDigitChars_decimal,
    Encodable.encodek]

theorem count_braced (hc : c.isDigit = false) : (braced a).count c = ['\x7b', '\x7d'].count c := by
  have hdigits : (toString (Encodable.encode a)).toList.count c = 0 :=
    List.count_eq_zero.mpr (Delimited.not_mem_decimal hc)
  simp only [braced, List.count_cons, List.count_append, hdigits, Nat.zero_add]

theorem newline_notMem_braced : '\n' ∉ braced a :=
  List.count_eq_zero.mp (count_braced (by decide))

theorem getLast?_braced : (braced a).getLast? = some '\x7d' := by
  rw [braced, ← List.cons_append]
  exact List.getLast?_concat

end

instance : Encodable AckRecord :=
  .ofLeftInverse (fun ⟨a, b, c, d, e, f, g⟩ => (a, b, c, d, e, f, g)) ↿AckRecord.mk fun _ => rfl

/-- A codec that stands in for the JSON library. -/
def sampleCodec : AckCodec where
  toJson := braced
  fromJson := readBraced
  fromJson_toJson _ := readBraced_eq_some.mpr rfl
  newline_free _ := newline_notMem_braced
  opened _ := rfl
  closed _ := getLast?_braced
  trailing ack ack' := by
    refine Option.eq_none_iff_forall_ne_some.mpr fun read hread => ?_
    have hcount := congrArg (List.count '\x7b') (readBraced_eq_some.mp hread)
    have hone (ack : AckRecord) : (braced ack).count '\x7b' = 1 := count_braced (by decide)
    rw [List.count_append, hone, hone, hone] at hcount
    cases hcount

def sampleText : ReceiptText := ⟨id, some⟩

def sampleJob (taskId : U64) : Job := ⟨⟨taskId, "w", none, "c", "r", "s"⟩, "run"⟩

def sampleResult : AdapterExecResult := ⟨true, 0, some "h", true⟩

def sampleAck (taskId : U64) : AckRecord :=
  ⟨7, taskId, "accepted", some "h", some "h", some "idempotent_ok", some "run"⟩

/-- A process up to the record that it is going to write. -/
def prepares (p : Nat) (taskId : U64) : List FleetEvent :=
  [.enter p (sampleJob taskId), .lock p, .check p, .adapter p (some sampleResult),
    .adapter p (some sampleResult), .classify p, .hashes p 7]

def sampleDeeds (p : Nat) (taskId : U64) : List Deed :=
  [.invoked p taskId (submissionArgs (sampleJob taskId).submission).1,
    .invoked p taskId (submissionArgs (sampleJob taskId).submission).2]

theorem classifyFlushAck_sample (previous : Option String × Option String) :
    classifyFlushAck sampleText sampleResult sampleResult previous =
      ("accepted", "idempotent_ok") := by
  simp [classifyFlushAck, shouldExecuteReveal, sampleResult, receiptHashObserved,
    normalizeAdapterTxHash, trimmedHash, sampleText]

theorem stageTxHashForAck_sample (previous : Option String) :
    stageTxHashForAck sampleText (normalizeAdapterTxHash sampleText sampleResult.txHash) previous
      sampleResult.rc = some "h" := by
  simp [stageTxHashForAck, normalizeAdapterTxHash, trimmedHash, sampleText, sampleResult]

variable {codec : AckCodec} {s : Fleet}

theorem run_prepares (hidle : s.workers p = ⟨[], .idle⟩) (hfree : taskId ∉ s.locks)
    (hunacked : isTaskAcked codec s.log taskId = false) :
    s.run codec sampleText (prepares p taskId) =
      ⟨s.log, taskId :: s.locks,
        Function.update s.workers p ⟨[], .writing (sampleJob taskId) (sampleAck taskId)⟩,
        s.trace ++ sampleDeeds p taskId⟩ := by
  have hjob : (sampleJob taskId).taskId = taskId := rfl
  have hrun : (sampleJob taskId).runId = "run" := rfl
  have hreveal : shouldExecuteReveal sampleResult = true := rfl
  simp [Fleet.run, prepares, Fleet.step, Fleet.goto, Fleet.stage, Fleet.record, hidle, hfree,
    hunacked, hjob, hrun, hreveal, classifyFlushAck_sample, stageTxHashForAck_sample, sampleAck,
    sampleDeeds]

/-- A process that finds no ack invokes the adapter. -/
theorem run_check (hidle : s.workers p = ⟨[], .idle⟩) (hfree : taskId ∉ s.locks)
    (hunacked : isTaskAcked codec s.log taskId = false) :
    s.run codec sampleText [.enter p (sampleJob taskId), .lock p, .check p] =
      ⟨s.log, taskId :: s.locks, Function.update s.workers p ⟨[], .committing (sampleJob taskId)⟩,
        s.trace ++ [.invoked p taskId (submissionArgs (sampleJob taskId).submission).1]⟩ := by
  have hjob : (sampleJob taskId).taskId = taskId := rfl
  simp [Fleet.run, Fleet.step, Fleet.goto, Fleet.stage, Fleet.record, hidle, hfree, hunacked, hjob]

variable {events events' : List FleetEvent} {text : ReceiptText}

theorem run_append :
    s.run codec text (events ++ events') = (s.run codec text events).run codec text events' :=
  List.foldl_append

def sampleFleet : Fleet := .start [] [] fun _ => []

/-- Two processes about to write. -/
theorem run_both (codec : AckCodec) :
    sampleFleet.run codec sampleText (prepares 0 1 ++ prepares 1 2) =
    ⟨[], [2, 1], Function.update (Function.update sampleFleet.workers 0
      ⟨[], .writing (sampleJob 1) (sampleAck 1)⟩) 1 ⟨[], .writing (sampleJob 2) (sampleAck 2)⟩,
      sampleDeeds 0 1 ++ sampleDeeds 1 2⟩ := by
  have hunacked (t : U64) : isTaskAcked codec [] t = false := by
    simp [isTaskAcked, loadAcked, loadAckRecords]
  have hfirst : sampleFleet.run codec sampleText (prepares 0 1) = _ :=
    run_prepares rfl (by decide) (hunacked 1)
  rw [run_append, hfirst]
  exact run_prepares rfl (by decide) (hunacked 2)

/-- Both records are written before either newline. -/
def crossedWrites : List FleetEvent :=
  [.write 0, .write 1, .newline 0, .newline 1, .leave 0 false, .leave 1 false]

theorem run_crossedWrites (codec : AckCodec) :
    sampleFleet.run codec sampleText (prepares 0 1 ++ prepares 1 2 ++ crossedWrites) =
    ⟨codec.toJson (sampleAck 1) ++ codec.toJson (sampleAck 2) ++ ['\n'] ++ ['\n'], [],
      Function.update (Function.update sampleFleet.workers 0 ⟨[1], .idle⟩) 1 ⟨[2], .idle⟩,
      sampleDeeds 0 1 ++ sampleDeeds 1 2 ++ [.wrote 0 (sampleAck 1), .wrote 1 (sampleAck 2)]⟩ := by
  have hjob (t : U64) : (sampleJob t).taskId = t := rfl
  have hstatus (t : U64) : (sampleAck t).status = "accepted" := rfl
  rw [run_append, run_both]
  simp [Fleet.run, crossedWrites, Fleet.step, Fleet.goto, Fleet.stage, Fleet.record, Fleet.remember,
    Fleet.release, hjob, hstatus]
  funext q
  by_cases hone : q = 1
  · simp [hone]
  · by_cases hzero : q = 0
    · simp [hzero]
    · simp [hone, hzero]

/-- Two records on one line do not parse. -/
theorem loadAckRecords_crossed (codec : AckCodec) (ack ack' : AckRecord) :
    loadAckRecords codec (codec.toJson ack ++ codec.toJson ack' ++ ['\n'] ++ ['\n']) = [] := by
  have hfree : '\n' ∉ codec.toJson ack ++ codec.toJson ack' := by
    rw [List.mem_append, not_or]
    exact ⟨codec.newline_free ack, codec.newline_free ack'⟩
  have hreturn : (codec.toJson ack ++ codec.toJson ack').getLast? ≠ some '\r' := by
    rw [List.getLast?_append, codec.closed]
    simp
  have hfirst := lines_append_newline (.inl rfl) hfree hreturn
  have hsecond := @lines_append_newline (codec.toJson ack ++ codec.toJson ack' ++ ['\n']) []
    atLineStart_snoc (by simp) (by simp)
  simp only [List.nil_append, List.append_nil, lines_nil] at hfirst hsecond
  rw [loadAckRecords, hsecond, hfirst]
  refine List.filterMap_eq_nil_iff.mpr fun line hline => ?_
  obtain ⟨hmem, hblank⟩ := List.mem_filter.mp hline
  rcases List.mem_append.mp hmem with hmem | hmem
  · rw [List.mem_singleton.mp hmem]
    exact codec.trailing ack ack'
  · rw [List.mem_singleton.mp hmem] at hblank
    exact absurd hblank (by decide)

theorem alignedRun_append : AlignedRun codec text s (events ++ events') ↔
      AlignedRun codec text s events ∧ AlignedRun codec text (s.run codec text events) events' := by
  induction events generalizing s with
  | nil => simp [AlignedRun, Fleet.run]
  | cons event events ih =>
    rw [List.cons_append, AlignedRun, AlignedRun, ih, and_assoc]
    rfl

/-- Both records are written, each with its newline. -/
def serialWrites : List FleetEvent := [.write 0, .newline 0, .write 1, .newline 1]

theorem aligned_serialWrites (codec : AckCodec) : AlignedRun codec sampleText sampleFleet
    (prepares 0 1 ++ prepares 1 2 ++ serialWrites) := by
  refine alignedRun_append.mpr ⟨alignedRun_append.mpr ⟨?_, ?_⟩, ?_⟩
  · simp [AlignedRun, Aligned, prepares]
  · simp [AlignedRun, Aligned, prepares]
  · rw [run_both]
    simp [AlignedRun, Aligned, serialWrites, Fleet.step, Fleet.goto, Fleet.stage, Fleet.record,
      AtLineStart]

/-- Two processes write one after the other, and both acks are read back. -/
theorem sample_acks_are_kept :
    let s := sampleFleet.run sampleCodec sampleText (prepares 0 1 ++ prepares 1 2 ++ serialWrites)
    s.acks = [sampleAck 1, sampleAck 2] ∧ loadAckRecords sampleCodec s.log = s.acks := by
  refine ⟨?_, (acks_are_kept (aligned_serialWrites sampleCodec)).1⟩
  rw [run_append, run_both]
  simp [Fleet.run, serialWrites, Fleet.step, Fleet.goto, Fleet.stage, Fleet.record, Fleet.acks,
    sampleDeeds, Deed.ack, List.filterMap_cons]

/-- Two records on one line: both acks are lost, and the adapter is invoked for a task with an
accepted ack. -/
theorem crossed_writes_lose_acks :
    let s := sampleFleet.run sampleCodec sampleText (prepares 0 1 ++ prepares 1 2 ++ crossedWrites)
    let s' := s.run sampleCodec sampleText [.enter 2 (sampleJob 1), .lock 2, .check 2]
    s.acks = [sampleAck 1, sampleAck 2] ∧ (sampleAck 1).Accepted ∧
      loadAcked sampleCodec s.log = [] ∧
    (s'.stage 2).runs = some 1 ∧
    s'.trace = s.trace ++ [.invoked 2 1 (submissionArgs (sampleJob 1).submission).1] := by
  have hlost : loadAcked sampleCodec (sampleCodec.toJson (sampleAck 1) ++
      sampleCodec.toJson (sampleAck 2) ++ ['\n'] ++ ['\n']) = [] := by
    rw [loadAcked, loadAckRecords_crossed]
    rfl
  have hunacked : isTaskAcked sampleCodec (sampleCodec.toJson (sampleAck 1) ++
      sampleCodec.toJson (sampleAck 2) ++ ['\n'] ++ ['\n']) 1 = false := by
    rw [isTaskAcked, hlost]
    rfl
  rw [run_crossedWrites]
  intro s s'
  have hrun : s' = _ := run_check rfl (by simp [s]) hunacked
  refine ⟨rfl, rfl, hlost, ?_, ?_⟩
  all_goals rw [hrun]
  rfl

end Trillionnium.WorkerAgent
