import Trillionnium.Hash
import Trillionnium.WorkerAgent.Interleaving

/-!
# Commit and reveal

The worker commits to the hash of an adapter's output under a salt and reveals both later. The salt
is the task's number, so that whoever guesses the output can recompute the commit.
-/

namespace Trillionnium.WorkerAgent

open Lib Lib.Text Lib.Lines Pon

section
variable (sha256 : Bytes → Hash)

def commitmentMessage (taskId : U64) (resultHashHex saltHex worker : String) : Bytes :=
  Bytes.ofString (Delimited.join '|' [toString taskId.toNat, resultHashHex, saltHex, worker])

def commitment (taskId : U64) (resultHashHex saltHex worker : String) : String :=
  (sha256 (commitmentMessage taskId resultHashHex saltHex worker)).hex

/-- A number in 64 lower-case hexadecimal digits. -/
def paddedHex (n : Nat) : String :=
  String.ofList ((List.range 64).reverse.map fun i => Bytes.hexDigit (n / 16 ^ i % 16))

/-- The result's hash and the salt. -/
def executePayload (payload : String) (taskId : U64) : String × String :=
  ((sha256 (Bytes.ofString payload)).hex, paddedHex taskId.toNat)

end

/-! ## The submit log -/

structure SubmissionEntry extends SubmissionRecord where
  tsUnixMs : U128
  commitCmd : String
  revealCmd : String

/-- `serde_json` on submissions: what it writes it reads back, on one line in braces. -/
structure SubmissionCodec where
  toJson : SubmissionEntry → List Char
  fromJson : List Char → Option SubmissionEntry
  fromJson_toJson : ∀ entry, fromJson (toJson entry) = some entry
  newline_free : ∀ entry, '\n' ∉ toJson entry
  opened : ∀ entry, (toJson entry).head? = some '\x7b'
  closed : ∀ entry, (toJson entry).getLast? = some '\x7d'

def submissionEntry (tsUnixMs : U128) (taskId : U64)
    (worker commitHash resultHash saltHex : String) : SubmissionEntry :=
  let task := toString taskId.toNat
  { taskId := taskId, worker := worker, nonce := some taskId, commitHash := commitHash,
    resultHash := resultHash, saltHex := saltHex, tsUnixMs := tsUnixMs,
    commitCmd := "trnm-node tx commit-result " ++ task ++ " " ++ worker ++ " " ++ commitHash ++
      " " ++ task,
    revealCmd := "trnm-node tx reveal-result " ++ task ++ " " ++ resultHash ++ " " ++ saltHex }

def appendSubmission (codec : SubmissionCodec) (log : List Char) (tsUnixMs : U128) (taskId : U64)
    (worker commitHash resultHash saltHex : String) : List Char :=
  log ++ codec.toJson (submissionEntry tsUnixMs taskId worker commitHash resultHash saltHex) ++
    ['\n']

/-- The submissions that are flushed, where every line parses. -/
def loadSubmissions (codec : SubmissionCodec) (log : List Char) : Option (List SubmissionEntry) :=
  ((lines log).filter fun line => trim (String.ofList line) ≠ "").mapM codec.fromJson

/-! ## Assigned requests -/

/-- An assigned request whose output was accepted. -/
structure AcceptedOutput where
  tsUnixMs : U128
  taskId : U64
  worker : String
  outputText : String

section
variable (sha256 : Bytes → Hash)

/-- The tail of `handle_run_assigned`: the commit is computed and submitted. -/
def submitOutput (codec : SubmissionCodec) (log : List Char) (run : AcceptedOutput) : List Char :=
  let (resultHash, saltHex) := executePayload sha256 run.outputText run.taskId
  let commitHash := commitment sha256 run.taskId resultHash saltHex run.worker
  appendSubmission codec log run.tsUnixMs run.taskId run.worker commitHash resultHash saltHex

def submitOutputs (codec : SubmissionCodec) (log : List Char) (runs : List AcceptedOutput) :
    List Char :=
  runs.foldl (submitOutput sha256 codec) log

def AcceptedOutput.entry (run : AcceptedOutput) : SubmissionEntry :=
  let (resultHash, saltHex) := executePayload sha256 run.outputText run.taskId
  submissionEntry run.tsUnixMs run.taskId run.worker
    (commitment sha256 run.taskId resultHash saltHex run.worker) resultHash saltHex

/-- What anyone can compute from a task, a worker and a guessed output. -/
def guessedCommit (taskId : U64) (worker outputText : String) : String :=
  let (resultHash, saltHex) := executePayload sha256 outputText taskId
  commitment sha256 taskId resultHash saltHex worker

end

/-! ## Reading the log back -/

variable (sha256 : Bytes → Hash)

section
variable {codec : SubmissionCodec} {log : List Char} {entries : List SubmissionEntry}

theorem loadSubmissions_append (hlog : AtLineStart log)
    (hload : loadSubmissions codec log = some entries) (entry : SubmissionEntry) :
    loadSubmissions codec (log ++ codec.toJson entry ++ ['\n']) = some (entries ++ [entry]) := by
  have hreturn : (codec.toJson entry).getLast? ≠ some '\r' := by
    rw [codec.closed]
    decide
  have hne := trim_ne_empty (codec.opened entry)
  rw [loadSubmissions] at hload
  rw [loadSubmissions, lines_append_newline hlog (codec.newline_free entry) hreturn,
    List.filter_append, List.mapM_append, hload]
  simp [hne, codec.fromJson_toJson]

theorem loadSubmissions_nil : loadSubmissions codec [] = some [] := by
  simp [loadSubmissions]

/-- Every run adds its entry. -/
theorem loadSubmissions_submitOutputs
    (hlog : AtLineStart log) (hload : loadSubmissions codec log = some entries) :
    loadSubmissions codec (submitOutputs sha256 codec log runs) =
      some (entries ++ runs.map (AcceptedOutput.entry sha256)) := by
  induction runs generalizing log entries with
  | nil => simpa [submitOutputs] using hload
  | cons run runs ih =>
    have hstep : submitOutput sha256 codec log run = log ++ codec.toJson (run.entry sha256) ++
      ['\n'] := rfl
    rw [submitOutputs, List.foldl_cons, hstep]
    have hrest := ih atLineStart_snoc (loadSubmissions_append hlog hload (run.entry sha256))
    rw [submitOutputs] at hrest
    rw [hrest, List.map_cons, List.append_assoc, List.singleton_append]

end

/-! ## Openings -/

structure Opening where
  taskId : U64
  resultHash : String
  saltHex : String
  worker : String

namespace Opening

def message (o : Opening) : Bytes := commitmentMessage o.taskId o.resultHash o.saltHex o.worker

def commit (o : Opening) : String :=
  commitment sha256 o.taskId o.resultHash o.saltHex o.worker

end Opening

/-- Lower-case hexadecimal of 32 bytes. -/
def LowerHex64 (s : String) : Prop :=
  s.toList.length = 64 ∧ ∀ c ∈ s.toList, Bytes.unhexDigit c ≠ none

theorem LowerHex64.bar_not_mem (h : LowerHex64 s) : '|' ∉ s.toList :=
  fun hmem => h.2 _ hmem (by decide)

theorem hexDigit_ne_none (h : n < 16) : Bytes.unhexDigit (Bytes.hexDigit n) ≠ none := by
  rw [Bytes.unhexDigit_hexDigit h]
  exact Option.some_ne_none n

theorem unhexDigit_of_mem_hexChars (h : c ∈ Bytes.hexChars bs) : Bytes.unhexDigit c ≠ none := by
  induction bs with
  | nil => cases h
  | cons b bs ih =>
    have hb := b.toNat_lt
    rcases List.mem_cons.mp h with rfl | h
    · exact hexDigit_ne_none (by omega)
    rcases List.mem_cons.mp h with rfl | h
    · exact hexDigit_ne_none (by omega)
    · exact ih h

theorem lowerHex64_hex (h : Hash) : LowerHex64 h.hex := by
  refine ⟨?_, fun c hc => ?_⟩
  · rw [Hash.hex, Bytes.toList_hex, Bytes.length_hexChars, h.size_eq]
  · rw [Hash.hex, Bytes.toList_hex] at hc
    exact unhexDigit_of_mem_hexChars hc

theorem lowerHex64_paddedHex (n : Nat) : LowerHex64 (paddedHex n) := by
  refine ⟨by simp [paddedHex], fun c hc => ?_⟩
  rw [paddedHex, String.toList_ofList] at hc
  obtain ⟨i, -, rfl⟩ := List.mem_map.mp hc
  exact hexDigit_ne_none (Nat.mod_lt _ (by decide))

/-- The text that is hashed determines the opening, also where the worker's name holds the
separator. -/
theorem Opening.message_inj {o o' : Opening} (hresult : LowerHex64 o.resultHash)
    (hsalt : LowerHex64 o.saltHex) (hresult' : LowerHex64 o'.resultHash)
    (hsalt' : LowerHex64 o'.saltHex) (h : o.message = o'.message) : o = o' := by
  have hjoin := Bytes.ofString_inj h
  have htask {n : Nat} : '|' ∉ (toString n).toList := Delimited.not_mem_decimal (by decide)
  obtain ⟨ht, hjoin⟩ := Delimited.join_cons_inj_of_not_mem htask htask (by simp) (by simp) hjoin
  obtain ⟨hr, hjoin⟩ := Delimited.join_cons_inj_of_not_mem hresult.bar_not_mem hresult'.bar_not_mem
    (by simp) (by simp) hjoin
  obtain ⟨hs, hjoin⟩ := Delimited.join_cons_inj_of_not_mem hsalt.bar_not_mem hsalt'.bar_not_mem
    (by simp) (by simp) hjoin
  have hw : o.worker = o'.worker := by
    have htexts := congrArg String.toList hjoin
    exact String.toList_inj.mp (by simpa [Delimited.toList_join] using htexts)
  cases o
  cases o'
  simp only [Opening.mk.injEq]
  exact ⟨BitVec.eq_of_toNat_eq (Delimited.decimal_inj ht), hr, hs, hw⟩

theorem Opening.eq_of_commit {sha256 : Bytes → Hash} {o o' : Opening}
    (hresult : LowerHex64 o.resultHash) (hsalt : LowerHex64 o.saltHex)
    (hresult' : LowerHex64 o'.resultHash) (hsalt' : LowerHex64 o'.saltHex)
    (hclean : Set.InjOn sha256 {o.message, o'.message}) (h : o.commit sha256 = o'.commit sha256) :
    o = o' := by
  have hdigest : sha256 o.message = sha256 o'.message := Hash.ext_bytes (Bytes.hex_inj h)
  exact Opening.message_inj hresult hsalt hresult' hsalt' (hclean (by simp) (by simp) hdigest)

/-- What the worker itself will reveal. -/
def AcceptedOutput.opening (run : AcceptedOutput) : Opening :=
  let (resultHash, saltHex) := executePayload sha256 run.outputText run.taskId
  ⟨run.taskId, resultHash, saltHex, run.worker⟩

/-- The arguments of the commit and of the reveal, where the first carries the commitment to the
second. -/
def Opens (o : Opening) (args : List String × List String) : Prop :=
  args = (["commit", toString o.taskId.toNat, o.worker, o.commit sha256, toString o.taskId.toNat],
    ["reveal", toString o.taskId.toNat, o.resultHash, o.saltHex])

theorem opens_entry (run : AcceptedOutput) :
    Opens sha256 (run.opening sha256) (submissionArgs (run.entry sha256).toSubmissionRecord) := rfl

def AcceptedOutput.messages (run : AcceptedOutput) : List Bytes :=
  [Bytes.ofString run.outputText, (run.opening sha256).message]

/-- A guess gives the published commit exactly when it is the output. -/
theorem guessedCommit_eq_iff {sha256 : Bytes → Hash} {run : AcceptedOutput}
    (hclean : Set.InjOn sha256 {m | m ∈ run.messages sha256 ++
      AcceptedOutput.messages sha256 { run with outputText := guess }}) :
    guessedCommit sha256 run.taskId run.worker guess = (run.opening sha256).commit sha256 ↔
      guess = run.outputText := by
  constructor
  · intro h
    have hopening : AcceptedOutput.opening sha256 { run with outputText := guess } =
        run.opening sha256 :=
      Opening.eq_of_commit (lowerHex64_hex _) (lowerHex64_paddedHex _) (lowerHex64_hex _)
        (lowerHex64_paddedHex _) (hclean.mono (by
          rintro m (rfl | rfl)
          · simp [AcceptedOutput.messages]
          · simp [AcceptedOutput.messages])) h
    have hresult : sha256 (Bytes.ofString guess) = sha256 (Bytes.ofString run.outputText) :=
      Hash.ext_bytes (Bytes.hex_inj (congrArg Opening.resultHash hopening))
    exact Bytes.ofString_inj (hclean (by simp [AcceptedOutput.messages])
      (by simp [AcceptedOutput.messages]) hresult)
  · rintro rfl
    rfl

/-- Every submission of a log of accepted outputs opens its own commit, openings in hexadecimal of
32 bytes are bound, and the commit tells a right guess of the output from a wrong one. -/
theorem commit_opens_binds_and_is_testable (sha256 : Bytes → Hash) (codec : SubmissionCodec)
    (runs : List AcceptedOutput) :
    (∃ entries, loadSubmissions codec (submitOutputs sha256 codec [] runs) = some entries ∧
      List.Forall₂ (fun run entry => Opens sha256 (run.opening sha256)
        (submissionArgs entry.toSubmissionRecord)) runs entries) ∧
    (∀ o o' : Opening, LowerHex64 o.resultHash → LowerHex64 o.saltHex → LowerHex64 o'.resultHash →
      LowerHex64 o'.saltHex → Set.InjOn sha256 {o.message, o'.message} →
      o.commit sha256 = o'.commit sha256 → o = o') ∧
    ∀ run ∈ runs, ∀ guess, Set.InjOn sha256 {m | m ∈ run.messages sha256 ++
        AcceptedOutput.messages sha256 { run with outputText := guess }} →
      (guessedCommit sha256 run.taskId run.worker guess = (run.opening sha256).commit sha256 ↔
        guess = run.outputText) := by
  refine ⟨⟨runs.map (AcceptedOutput.entry sha256), ?_, ?_⟩, ?_, ?_⟩
  · exact loadSubmissions_submitOutputs sha256 (.inl rfl) loadSubmissions_nil
  · rw [List.forall₂_map_right_iff]
    exact List.forall₂_same.mpr fun run _ => opens_entry sha256 run
  · intro o o' hresult hsalt hresult' hsalt' hclean h
    exact Opening.eq_of_commit hresult hsalt hresult' hsalt' hclean h
  · intro run _ guess hclean
    exact guessedCommit_eq_iff hclean

/-! ## One codec and one run -/

instance : Encodable SubmissionEntry :=
  .ofLeftInverse (fun ⟨⟨a, b, c, d, e, f⟩, g, h, i⟩ => ((a, b, c, d, e, f), g, h, i))
    (fun (x, y) => ↿SubmissionEntry.mk (↿SubmissionRecord.mk x, y)) fun _ => rfl

def sampleSubmissionCodec : SubmissionCodec where
  toJson := braced
  fromJson := readBraced
  fromJson_toJson _ := readBraced_eq_some.mpr rfl
  newline_free _ := newline_notMem_braced
  opened _ := rfl
  closed _ := getLast?_braced

def sampleOutput : AcceptedOutput := ⟨1000, 7, "bob", "hello"⟩

theorem sample_commit_opens_binds_and_is_testable :
    (∃ entries, loadSubmissions sampleSubmissionCodec
        (submitOutputs Hash.checksum sampleSubmissionCodec [] [sampleOutput]) = some entries ∧
      List.Forall₂ (fun run entry => Opens Hash.checksum (run.opening Hash.checksum)
        (submissionArgs entry.toSubmissionRecord)) [sampleOutput] entries) ∧
    guessedCommit Hash.checksum 7 "bob" "hello" =
      (sampleOutput.opening Hash.checksum).commit Hash.checksum ∧
    guessedCommit Hash.checksum 7 "bob" "world" ≠
      (sampleOutput.opening Hash.checksum).commit Hash.checksum := by
  obtain ⟨hlog, -, htest⟩ :=
    commit_opens_binds_and_is_testable Hash.checksum sampleSubmissionCodec [sampleOutput]
  have hclean (guess : String) (hdigests : ∀ m ∈ sampleOutput.messages Hash.checksum ++
      AcceptedOutput.messages Hash.checksum { sampleOutput with outputText := guess },
      ∀ m' ∈ sampleOutput.messages Hash.checksum ++
      AcceptedOutput.messages Hash.checksum { sampleOutput with outputText := guess },
      Hash.checksum m = Hash.checksum m' → m = m') := fun m hm m' hm' => hdigests m hm m' hm'
  refine ⟨hlog, ?_, ?_⟩
  · exact (htest sampleOutput List.mem_cons_self "hello" (hclean _ (by decide +kernel))).mpr rfl
  · intro h
    have hguess := (htest sampleOutput List.mem_cons_self "world" (hclean _ (by decide +kernel))).mp
      h
    exact absurd hguess (by decide)

/-- One function of task, worker and output gives the published commit in every run. -/
theorem commit_is_function_of_output :
    ∃ guess : (Bytes → Hash) → U64 → String → String → String,
      ∀ sha256 codec runs entries, loadSubmissions codec (submitOutputs sha256 codec [] runs) =
          some entries →
        List.Forall₂ (fun run entry => (submissionArgs entry.toSubmissionRecord).1[3]? =
          some (guess sha256 run.taskId run.worker run.outputText)) runs entries := by
  refine ⟨guessedCommit, fun sha256 codec runs entries hload => ?_⟩
  rw [loadSubmissions_submitOutputs sha256 (.inl rfl) loadSubmissions_nil] at hload
  obtain rfl := Option.some.inj hload
  rw [List.nil_append, List.forall₂_map_right_iff]
  exact List.forall₂_same.mpr fun run _ => rfl

end Trillionnium.WorkerAgent
