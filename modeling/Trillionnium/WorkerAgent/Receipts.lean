import Trillionnium.WorkerAgent.Interleaving

/-!
# Transaction hashes in receipts

A hash is looked for in what the adapter prints, under any of 144 spellings of its label and in five
normalized copies of the text. A hash of the ack log is freed of fillers and of pairs of escaped
quotes and then looked for in the same way. The slice that takes off a pair of quotes panics where
the two are one.
-/

namespace Trillionnium.WorkerAgent

open Lib Lib.Text Lib.Lines

/-! ## Characters -/

def isReceiptQuoteWrapper (c : Char) : Bool :=
  c ∈ "\"'\x60“”‘’«»‹›〈〉《》⟨⟩「」『』".toList

def isReceiptBracketWrapper (c : Char) : Bool :=
  c ∈ "()[]\x7b\x7d<>（）［］｛｝＜＞【】〔〕〖〗".toList

def isInvisibleFiller (c : Char) : Bool :=
  c.toNat ∈ [0xFEFF, 0x200B, 0x200C, 0x200D, 0x200E, 0x200F, 0x061C, 0x2060, 0x2061, 0x2062,
    0x2063, 0x2064, 0x2066, 0x2067, 0x2068, 0x2069, 0x00AD, 0x034F, 0x180E, 0xFE0E, 0xFE0F]

def isAsciiHexdigit (c : Char) : Bool := c ∈ "0123456789abcdefABCDEF".toList

def isAsciiWhitespace (c : Char) : Bool := c ∈ [' ', '\t', '\n', '\x0c', '\r']

/-- Whitespace, control characters and fillers. -/
def isAuditFiller (c : Char) : Bool := isWhitespace c || isControl c || isInvisibleFiller c

def trimBoundaryAuditFillers (value : String) : String :=
  String.ofList (trimMatches isAuditFiller value.toList)

/-! ## One candidate -/

/-- Without a leading `0x`. -/
def stripHexPrefix (t : List Char) : List Char :=
  if "0x".toList.isPrefixOf t || "0X".toList.isPrefixOf t then t.drop 2 else t

/-- Hexadecimal of 8 to 128 digits, in lower case. The length is in bytes, which are the characters
where all are digits. -/
def normalizeCandidateTxHash (raw : List Char) : Option (List Char) :=
  let cleaned := trimMatches isWhitespace (trimEndMatches
    (fun c => isReceiptQuoteWrapper c || isReceiptBracketWrapper c || c ∈ ",;，；".toList ||
      isControl c || isInvisibleFiller c)
    (trimMatches (fun c => isReceiptQuoteWrapper c || isReceiptBracketWrapper c ||
      c ∈ ",;.:，；。：".toList || isControl c || isInvisibleFiller c) raw))
  let normalized := stripHexPrefix cleaned
  if 8 ≤ normalized.length ∧ normalized.length ≤ 128 ∧ normalized.all isAsciiHexdigit then
    some (normalized.map Char.toLower)
  else none

/-! ## The scan of a text -/

def hashLabels : List String :=
  ["tx_hash", "TX_HASH", "tx-hash", "TX-HASH", "tx hash", "TX HASH", "txHash", "TXHASH", "txhash",
    "transaction_hash", "TRANSACTION_HASH", "transaction-hash", "TRANSACTION-HASH",
    "transaction hash", "TRANSACTION HASH", "transactionHash", "TRANSACTIONHASH", "transactionhash"]

/-- `PREFIXES`: the labels bare, in double quotes and in single quotes. -/
def hashPrefixes : List (List Char) :=
  (hashLabels.flatMap (fun label => [label ++ "=", label ++ " =", label ++ ":", label ++ " :"]) ++
    hashLabels.flatMap (fun label => ["\"" ++ label ++ "\":", "\"" ++ label ++ "\" :"]) ++
    hashLabels.flatMap (fun label => ["'" ++ label ++ "':", "'" ++ label ++ "' :"])).map
      String.toList

/-- What may stand before the hash. -/
def isOpening (c : Char) : Bool :=
  isAsciiWhitespace c || isControl c || isInvisibleFiller c || isReceiptQuoteWrapper c ||
    isReceiptBracketWrapper c

/-- The loop that skips what stands before the hash, with quotes that may be escaped. Each round but
the last makes the text shorter. -/
def skipOpening : Nat → List Char → List Char
  | 0, before => before
  | rounds + 1, before =>
    let candidate := before.dropWhile isOpening
    match candidate with
    | '\\' :: q :: rest =>
      if isReceiptQuoteWrapper q then skipOpening rounds (q :: rest)
      else if candidate = before then candidate else skipOpening rounds candidate
    | _ => if candidate = before then candidate else skipOpening rounds candidate

def isHashChar (c : Char) : Bool :=
  isAsciiHexdigit c || c = 'x' || c = 'X' || isReceiptQuoteWrapper c

def parseHashFromSuffix (suffix : List Char) : Option (List Char) :=
  let trimmed := suffix.dropWhile isWhitespace
  if trimmed = [] then none
  else
    let candidate := skipOpening (trimmed.length + 1) trimmed
    if candidate = [] then none else normalizeCandidateTxHash (candidate.takeWhile isHashChar)

/-- Every kind of quote becomes the double quote, and loses its escape. -/
def normalizeKeyQuotes : List Char → List Char
  | [] => []
  | c :: rest =>
    if c = '\\' ∧ rest.head?.any isReceiptQuoteWrapper then normalizeKeyQuotes rest
    else (if isReceiptQuoteWrapper c then '\x22' else c) :: normalizeKeyQuotes rest

def normalizeDelimiter (c : Char) : Char :=
  if c = '：' then ':' else if c = '＝' then '=' else if c ∈ "‐‑‒–—―−－".toList then '-' else c

/-- Runs of whitespace become one space. -/
def collapseWhitespace (lastWasSpace : Bool) : List Char → List Char
  | [] => []
  | c :: rest =>
    if isWhitespace c then
      if lastWasSpace then collapseWhitespace true rest else ' ' :: collapseWhitespace true rest
    else c :: collapseWhitespace false rest

/-- The occurrences of one label from left to right. The rounds are enough where they exceed the
length. -/
def scanPrefix (label : List Char) : Nat → List Char → Option (List Char)
  | 0, _ => none
  | rounds + 1, remainder =>
    match findAfter label remainder with
    | none => none
    | some suffix => (parseHashFromSuffix suffix).or (scanPrefix label rounds (suffix.drop 1))

/-- The copies of a text that are scanned. -/
def haystacks (text : List Char) : List (List Char) :=
  let normalizedKeyQuotes := normalizeKeyQuotes text
  let normalizedDelimiters := normalizedKeyQuotes.map normalizeDelimiter
  let normalizedWhitespace := collapseWhitespace false normalizedDelimiters
  [text, normalizedKeyQuotes, normalizedDelimiters, normalizedWhitespace,
    normalizedWhitespace.filter fun c => !isControl c && !isInvisibleFiller c]

def words (text : List Char) : List (List Char) := (text.splitOnP isWhitespace).filter (· ≠ [])

def parseWord (word : List Char) : Option (List Char) :=
  (hashPrefixes.findSome? fun label => if label.isPrefixOf word then some (word.drop label.length)
    else none).bind normalizeCandidateTxHash

def parseTxHash (text : List Char) : Option (List Char) :=
  ((haystacks text).findSome? fun haystack =>
    hashPrefixes.findSome? fun label => scanPrefix label (haystack.length + 1) haystack).or
    ((words text).findSome? parseWord)

/-! ## Hashes of the log -/

/-- The loop that takes off escaped quotes in pairs; `none` is a panic. Two wrappers overlap where
the text is one escaped quote, and the slice between them then ends before it starts. -/
def peelQuotes : Nat → List Char → Option (List Char)
  | 0, trimmed => some trimmed
  | rounds + 1, trimmed =>
    match trimmed, trimmed.reverse with
    | '\\' :: startQuote :: _, endQuote :: '\\' :: _ =>
      if isReceiptQuoteWrapper startQuote && isReceiptQuoteWrapper endQuote then
        if 4 ≤ trimmed.length then peelQuotes rounds ((trimmed.drop 2).take (trimmed.length - 4))
          else none
      else some trimmed
    | _, _ => some trimmed

/-- The outer `none` is a panic. -/
def normalizePersistedTxHash (hash : Option String) : Option (Option String) :=
  match hash with
  | none => some none
  | some value => do
    let value := trimMatches isAuditFiller value.toList
    let trimmed ← peelQuotes value.length value
    if trimmed = [] then pure none
    else
      pure (some (String.ofList (((parseTxHash trimmed).or (normalizeCandidateTxHash trimmed)).getD
        trimmed)))

/-- The loop over the records, newest first, with the hashes found so far. -/
def persistedLoop (taskId : U64) :
    List AckRecord → Option String × Option String → Option (Option String × Option String)
  | [], hashes => some hashes
  | ack :: rest, (commit, reveal) =>
    if ack.taskId ≠ taskId then persistedLoop taskId rest (commit, reveal)
    else do
      let commit ← if commit.isNone then normalizePersistedTxHash ack.commitTxHash else some commit
      let reveal ← if reveal.isNone then normalizePersistedTxHash ack.revealTxHash else some reveal
      if commit.isSome && reveal.isSome then some (commit, reveal)
      else persistedLoop taskId rest (commit, reveal)

/-- The text of the log; a log that is absent or not UTF-8 is read as empty. -/
def ackLogText (file : Option ByteArray) : List Char :=
  ((file.bind String.fromUTF8?).map String.toList).getD []

/-- `persisted_ack_hashes_for_task` on a log's content; `none` is a panic. -/
def readAckHashes (codec : AckCodec) (file : Option ByteArray) (taskId : U64) :
    Option (Option String × Option String) :=
  persistedLoop taskId (loadAckRecords codec (ackLogText file)).reverse (none, none)

/-! ## The adapter -/

structure AdapterOutput where
  success : Bool
  code : Option Int
  stdout : String
  stderr : String

def rcNonceRejected : Int := 10

def rcSloViolation : Int := 11

def isDeterministicRejection (rc : Int) : Bool :=
  rc = rcDuplicate || rc = rcNonceRejected || rc = rcSloViolation

/-- What one attempt shows of the hash. -/
def AdapterOutput.txHash (out : AdapterOutput) : Option String :=
  ((parseTxHash out.stdout.toList).or (parseTxHash out.stderr.toList)).map String.ofList

/-- The attempts that are left, of which `exec` gives the outcomes, with the last return code and
hash. -/
def runAttempts {E : Type} (exec : Nat → Except E AdapterOutput) (maxRetries : Nat) :
    Nat → Int → Option String → Except E AdapterExecResult
  | 0, lastRc, lastTxHash => .ok ⟨false, lastRc, lastTxHash, false⟩
  | left + 1, _, lastTxHash => do
    let out ← exec (maxRetries - left)
    let rc := out.code.getD 1
    if out.success then return ⟨true, 0, out.txHash.or lastTxHash, true⟩
    let lastTxHash := out.txHash.or lastTxHash
    if isDeterministicRejection rc then return ⟨false, rc, lastTxHash, true⟩
    runAttempts exec maxRetries left rc lastTxHash

def runAdapterWithRetry {E : Type} (exec : Nat → Except E AdapterOutput) (maxRetries : U32) :
    Except E AdapterExecResult :=
  runAttempts exec maxRetries.toNat (maxRetries.toNat + 1) 1 none

end Trillionnium.WorkerAgent
