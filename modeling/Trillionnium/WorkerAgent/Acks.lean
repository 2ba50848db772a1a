import Trillionnium.Lib.Checked
import Trillionnium.Lib.Lines
import Trillionnium.Lib.Text

/-!
# Flushing submissions to the adapter

Worker processes run `process_submission_record` with `execute` against one ack log. Between its
accesses to the lock file, the log and the adapter a process can be overtaken by any other, and
`append_ack` is two writes: the record and the newline behind it. The JSON library and the
normalizers of transaction hashes are parameters, and so is what the adapter returns.
-/

namespace Trillionnium.WorkerAgent

open Lib Lib.Text Lib.Lines

structure AckRecord where
  tsUnixMs : U128
  taskId : U64
  status : String
  commitTxHash : Option String
  revealTxHash : Option String
  reasonCode : Option String
  runId : Option String

/-- `serde_json` on ack records: what it writes it reads back, on one line in braces, and it reads
nothing that goes on behind the closing brace. -/
structure AckCodec where
  toJson : AckRecord → List Char
  fromJson : List Char → Option AckRecord
  fromJson_toJson : ∀ ack, fromJson (toJson ack) = some ack
  newline_free : ∀ ack, '\n' ∉ toJson ack
  opened : ∀ ack, (toJson ack).head? = some '\x7b'
  closed : ∀ ack, (toJson ack).getLast? = some '\x7d'
  trailing : ∀ ack ack', fromJson (toJson ack ++ toJson ack') = none

def loadAckRecords (codec : AckCodec) (log : List Char) : List AckRecord :=
  ((lines log).filter fun line => trim (String.ofList line) ≠ "").filterMap codec.fromJson

def loadAcked (codec : AckCodec) (log : List Char) : List U64 :=
  ((loadAckRecords codec log).filter (·.status = "accepted")).map AckRecord.taskId

def isTaskAcked (codec : AckCodec) (log : List Char) (taskId : U64) : Bool :=
  taskId ∈ loadAcked codec log

/-! ## The ack of a submission -/

structure SubmissionRecord where
  taskId : U64
  worker : String
  nonce : Option U64
  commitHash : String
  resultHash : String
  saltHex : String

def submissionArgs (rec : SubmissionRecord) : List String × List String :=
  let nonce := rec.nonce.getD rec.taskId
  (["commit", toString rec.taskId.toNat, rec.worker, rec.commitHash, toString nonce.toNat],
    ["reveal", toString rec.taskId.toNat, rec.resultHash, rec.saltHex])

structure AdapterExecResult where
  ok : Bool
  rc : Int
  txHash : Option String
  terminal : Bool

def rcDuplicate : Int := 9

def rcSkipped : Int := -1

def isIdempotentDuplicateOk (rc : Int) : Bool := rc = rcDuplicate

def shouldExecuteReveal (commitRes : AdapterExecResult) : Bool :=
  commitRes.ok || isIdempotentDuplicateOk commitRes.rc

/-- The reveal that was not executed. -/
def skippedReveal : AdapterExecResult := ⟨false, rcSkipped, none, true⟩

/-- `trim_boundary_audit_fillers` and `normalize_persisted_tx_hash`. -/
structure ReceiptText where
  trimFillers : String → String
  normalizePersisted : String → Option String

section
variable (text : ReceiptText)

/-- A hash without the fillers around it, if anything is left. -/
def trimmedHash (hash : String) : Option String :=
  let trimmed := text.trimFillers hash
  if trimmed = "" then none else some trimmed

def normalizeAdapterTxHash (txHash : Option String) : Option String :=
  txHash.bind (trimmedHash text)

def stageTxHashForAck (observed previous : Option String) (rc : Int) : Option String :=
  observed.or (if isIdempotentDuplicateOk rc then previous.bind (trimmedHash text) else none)

def receiptHashObserved (observed previous : Option String) (rc : Int) : Bool :=
  observed.isSome || (stageTxHashForAck text none previous rc).isSome

/-- The latest hashes that the log has for the task, of the commit and of the reveal. -/
def persistedAckHashesForTask (acks : List AckRecord) (taskId : U64) :
    Option String × Option String :=
  let own := acks.reverse.filter (·.taskId = taskId)
  (own.findSome? fun ack => ack.commitTxHash.bind text.normalizePersisted,
    own.findSome? fun ack => ack.revealTxHash.bind text.normalizePersisted)

/-- The status and the reason code. -/
def classifyFlushAck (commitRes revealRes : AdapterExecResult)
    (previous : Option String × Option String) : String × String :=
  let commitIdempotentOk := shouldExecuteReveal commitRes
  let revealIdempotentOk := revealRes.ok || isIdempotentDuplicateOk revealRes.rc
  let commitHashObserved :=
    receiptHashObserved text (normalizeAdapterTxHash text commitRes.txHash) previous.1 commitRes.rc
  let revealHashObserved :=
    receiptHashObserved text (normalizeAdapterTxHash text revealRes.txHash) previous.2 revealRes.rc
  if commitIdempotentOk && revealIdempotentOk && commitHashObserved && revealHashObserved then
    ("accepted", "idempotent_ok")
  else if commitIdempotentOk && revealIdempotentOk && (!commitHashObserved ||
      !revealHashObserved) then
    ("failed", "missing_tx_hash_receipt")
  else if !commitIdempotentOk && commitRes.terminal then
    ("rejected", "commit_rejected_skip_reveal")
  else if commitRes.terminal || revealRes.terminal then
    ("rejected", "deterministic_rejection")
  else
    ("failed", "retry_exhausted_or_transient")

end

/-! ## Processes -/

/-- What a process works on. -/
structure Job where
  submission : SubmissionRecord
  runId : String

def Job.taskId (job : Job) : U64 := job.submission.taskId

/-- Where a process is in `process_submission_record`. -/
inductive Stage where
  | idle
  | locking (job : Job)
  | checking (job : Job)
  | committing (job : Job)
  | revealing (job : Job) (commitRes : AdapterExecResult)
  | classifying (job : Job) (commitRes revealRes : AdapterExecResult)
  | hashing (job : Job) (commitRes revealRes : AdapterExecResult) (verdict : String × String)
  | writing (job : Job) (ack : AckRecord)
  | ending (job : Job) (ack : AckRecord)
  | written (job : Job) (ack : AckRecord)
  | leaving (job : Job)

structure Worker where
  acked : List U64
  stage : Stage

/-- An adapter invocation, or the write of a record to the log. -/
inductive Deed where
  | invoked (process : Nat) (taskId : U64) (args : List String)
  | wrote (process : Nat) (ack : AckRecord)

/-- The files, the processes, and what was done so far. -/
structure Fleet where
  log : List Char
  locks : List U64
  workers : Nat → Worker
  trace : List Deed

def Deed.ack : Deed → Option AckRecord
  | invoked .. => none
  | wrote _ ack => some ack

def Fleet.acks (s : Fleet) : List AckRecord := s.trace.filterMap Deed.ack

inductive FleetEvent where
  | enter (p : Nat) (job : Job)
  | lock (p : Nat)
  | check (p : Nat)
  /-- The adapter returned, or could not be started. -/
  | adapter (p : Nat) (result : Option AdapterExecResult)
  | classify (p : Nat)
  | hashes (p : Nat) (nowMs : U128)
  | write (p : Nat)
  | newline (p : Nat)
  /-- The lock file is removed, after the bookkeeping or an error in it. -/
  | leave (p : Nat) (failed : Bool)

namespace Fleet

def stage (s : Fleet) (p : Nat) : Stage := (s.workers p).stage

def goto (s : Fleet) (p : Nat) (stage : Stage) : Fleet :=
  { s with workers := Function.update s.workers p ⟨(s.workers p).acked, stage⟩ }

def remember (s : Fleet) (p : Nat) (taskId : U64) : Fleet :=
  { s with
    workers := Function.update s.workers p ⟨taskId :: (s.workers p).acked, (s.workers p).stage⟩ }

def record (s : Fleet) (deed : Deed) : Fleet := { s with trace := s.trace ++ [deed] }

def release (s : Fleet) (taskId : U64) : Fleet := { s with locks := s.locks.filter (· ≠ taskId) }

/-- One access of one process. -/
def step (codec : AckCodec) (text : ReceiptText) (s : Fleet) : FleetEvent → Fleet
  | .enter p job =>
    match s.stage p with
    | .idle => if job.taskId ∈ (s.workers p).acked then s else s.goto p (.locking job)
    | _ => s
  | .lock p =>
    match s.stage p with
    | .locking job =>
      if job.taskId ∈ s.locks then s.goto p .idle
      else { s.goto p (.checking job) with locks := job.taskId :: s.locks }
    | _ => s
  | .check p =>
    match s.stage p with
    | .checking job =>
      if isTaskAcked codec s.log job.taskId then (s.remember p job.taskId).goto p (.leaving job)
      else (s.goto p (.committing job)).record
        (.invoked p job.taskId (submissionArgs job.submission).1)
    | _ => s
  | .adapter p result =>
    match s.stage p, result with
    | .committing job, none => s.goto p (.leaving job)
    | .committing job, some commitRes =>
      if shouldExecuteReveal commitRes then
        (s.goto p (.revealing job commitRes)).record
          (.invoked p job.taskId (submissionArgs job.submission).2)
      else s.goto p (.classifying job commitRes skippedReveal)
    | .revealing job _, none => s.goto p (.leaving job)
    | .revealing job commitRes, some revealRes => s.goto p (.classifying job commitRes revealRes)
    | _, _ => s
  | .classify p =>
    match s.stage p with
    | .classifying job commitRes revealRes =>
      let previous := persistedAckHashesForTask text (loadAckRecords codec s.log) job.taskId
      s.goto p (.hashing job commitRes revealRes
        (classifyFlushAck text commitRes revealRes previous))
    | _ => s
  | .hashes p nowMs =>
    match s.stage p with
    | .hashing job commitRes revealRes (status, reason) =>
      -- the log is read once more
      let previous := persistedAckHashesForTask text (loadAckRecords codec s.log) job.taskId
      let commitTxHash :=
        stageTxHashForAck text (normalizeAdapterTxHash text commitRes.txHash) previous.1
          commitRes.rc
      let revealTxHash :=
        stageTxHashForAck text (normalizeAdapterTxHash text revealRes.txHash) previous.2
          revealRes.rc
      s.goto p (.writing job
        ⟨nowMs, job.taskId, status, commitTxHash, revealTxHash, some reason, some job.runId⟩)
    | _ => s
  | .write p =>
    match s.stage p with
    | .writing job ack =>
      { (s.goto p (.ending job ack)).record (.wrote p ack) with log := s.log ++ codec.toJson ack }
    | _ => s
  | .newline p =>
    match s.stage p with
    | .ending job ack => { s.goto p (.written job ack) with log := s.log ++ ['\n'] }
    | _ => s
  | .leave p failed =>
    match s.stage p with
    | .leaving job => (s.goto p .idle).release job.taskId
    | .written job ack =>
      let s' := if ack.status = "accepted" ∧ !failed then s.remember p job.taskId else s
      (s'.goto p .idle).release job.taskId
    | _ => s

def run (codec : AckCodec) (text : ReceiptText) (s : Fleet) (events : List FleetEvent) : Fleet :=
  events.foldl (step codec text) s

/-- Processes that start on a log. Each may know of acked tasks, and lock files may be left over. -/
def start (log : List Char) (locks : List U64) (acked : Nat → List U64) : Fleet :=
  ⟨log, locks, fun p => ⟨acked p, .idle⟩, []⟩

end Fleet

end Trillionnium.WorkerAgent
