import Trillionnium.WorkerAgent.Receipts

/-!
# Receipts across a restart

Every hash that the parser reports is lower-case hexadecimal, and reading it from the log gives it
back. The one thing that the reader cannot stand is a value that is an odd number of escaped quotes
and nothing else: their pairs are taken off until one is left, and there the slice panics.
-/

namespace Trillionnium.WorkerAgent

open Lib Lib.Text Lib.Lines

/-! ## Reported hashes -/

def lowerHexDigits : List Char := "0123456789abcdef".toList

/-- What the parser can report. -/
structure ReceiptHash (h : List Char) : Prop where
  long : 8 ≤ h.length
  short : h.length ≤ 128
  digits : ∀ c ∈ h, c ∈ lowerHexDigits

section
variable {text h : List Char} {label : List Char} {rounds : Nat}

theorem receiptHash_of_candidate (hcandidate : normalizeCandidateTxHash text = some h) :
    ReceiptHash h := by
  have hlower : ∀ c ∈ "0123456789abcdefABCDEF".toList, c.toLower ∈ lowerHexDigits := by decide
  simp only [normalizeCandidateTxHash] at hcandidate
  split at hcandidate
  · next hvalid =>
    obtain ⟨hlong, hshort, hdigits⟩ := hvalid
    obtain rfl := Option.some.inj hcandidate
    refine ⟨by rwa [List.length_map], by rwa [List.length_map], fun c hc => ?_⟩
    obtain ⟨d, hd, rfl⟩ := List.mem_map.mp hc
    exact hlower d (of_decide_eq_true (List.all_eq_true.mp hdigits d hd))
  · cases hcandidate

theorem receiptHash_of_suffix (hparse : parseHashFromSuffix text = some h) : ReceiptHash h := by
  simp only [parseHashFromSuffix] at hparse
  split at hparse
  · cases hparse
  · split at hparse
    · cases hparse
    · exact receiptHash_of_candidate hparse

theorem receiptHash_of_scanPrefix (hscan : scanPrefix label rounds text = some h) :
    ReceiptHash h := by
  induction rounds generalizing text with
  | zero => cases hscan
  | succ rounds ih =>
    rw [scanPrefix] at hscan
    split at hscan
    · cases hscan
    · rcases Option.or_eq_some_iff.mp hscan with hparse | ⟨-, hrest⟩
      · exact receiptHash_of_suffix hparse
      · exact ih hrest

theorem receiptHash_of_parse (hparse : parseTxHash text = some h) : ReceiptHash h := by
  rcases Option.or_eq_some_iff.mp hparse with hscan | ⟨-, hword⟩
  · obtain ⟨haystack, -, hscan⟩ := List.exists_of_findSome?_eq_some hscan
    obtain ⟨label, -, hscan⟩ := List.exists_of_findSome?_eq_some hscan
    exact receiptHash_of_scanPrefix hscan
  · obtain ⟨word, -, hword⟩ := List.exists_of_findSome?_eq_some hword
    obtain ⟨rest, -, hcandidate⟩ := Option.bind_eq_some_iff.mp hword
    exact receiptHash_of_candidate hcandidate

end

variable {h : String}

/-- The hash of an attempt. -/
theorem receiptHash_of_output {out : AdapterOutput} (htx : out.txHash = some h) :
    ReceiptHash h.toList := by
  obtain ⟨parsed, hparsed, rfl⟩ := Option.map_eq_some_iff.mp htx
  rw [String.toList_ofList]
  rcases Option.or_eq_some_iff.mp hparsed with hparsed | ⟨-, hparsed⟩
  · exact receiptHash_of_parse hparsed
  · exact receiptHash_of_parse hparsed

section
variable {E : Type} {exec : Nat → Except E AdapterOutput} {res : AdapterExecResult}

theorem receiptHash_of_attempts (hlast : ∀ h, lastTxHash = some h → ReceiptHash h.toList)
    (hrun : runAttempts exec maxRetries left lastRc lastTxHash = .ok res)
    (htx : res.txHash = some h) :
    ReceiptHash h.toList := by
  induction left generalizing lastRc lastTxHash with
  | zero =>
    obtain rfl := Except.ok.inj hrun
    exact hlast h htx
  | succ left ih =>
    rw [runAttempts] at hrun
    cases hexec : exec (maxRetries - left) with
    | error e =>
      rw [hexec] at hrun
      cases hrun
    | ok out =>
      -- The hash of this attempt, or else the one so far.
      have hnow : ∀ h, out.txHash.or lastTxHash = some h → ReceiptHash h.toList := by
        intro h hor
        rcases Option.or_eq_some_iff.mp hor with hout | ⟨-, hold⟩
        · exact receiptHash_of_output hout
        · exact hlast h hold
      rw [hexec] at hrun
      change (if out.success = true then _ else _) = _ at hrun
      split at hrun
      · obtain rfl := Except.ok.inj hrun
        exact hnow h htx
      · change (if isDeterministicRejection _ = true then _ else _) = _ at hrun
        split at hrun
        · obtain rfl := Except.ok.inj hrun
          exact hnow h htx
        · exact ih hnow hrun

/-- Every hash that the adapter's run reports. -/
theorem receiptHash_of_run
    (hrun : runAdapterWithRetry exec maxRetries = .ok res) (htx : res.txHash = some h) :
    ReceiptHash h.toList :=
  receiptHash_of_attempts (fun _ hnone => by cases hnone) hrun htx

end

/-! ## Reading a reported hash back -/

namespace ReceiptHash

variable {h : List Char} (hh : ReceiptHash h)
include hh

/-- A class of characters without the digits. -/
theorem all_false {p : Char → Bool} (hp : ∀ c ∈ lowerHexDigits, p c = false) :
    ∀ c ∈ h, p c = false := fun c hc => hp c (hh.digits c hc)

theorem not_mem (hc : c ∉ lowerHexDigits) : c ∉ h :=
  fun hmem => hc (hh.digits c hmem)

theorem ne_nil : h ≠ [] := by
  rintro rfl
  exact absurd hh.long (by decide)

theorem trim_fillers : trimMatches isAuditFiller h = h :=
  trimMatches_eq_self (hh.all_false (by decide))

theorem stripHexPrefix_eq : stripHexPrefix h = h := by
  have hno {front : List Char} {c : Char} (hc : c ∈ front) (hdigit : c ∉ lowerHexDigits) :
      front.isPrefixOf h = false := by
    rw [Bool.eq_false_iff, ne_eq, List.isPrefixOf_iff_prefix]
    exact fun hfront => hh.not_mem hdigit (hfront.subset hc)
  have hlower : "0x".toList.isPrefixOf h = false := hno (c := 'x') (by decide) (by decide)
  have hupper : "0X".toList.isPrefixOf h = false := hno (c := 'X') (by decide) (by decide)
  rw [stripHexPrefix, hlower, hupper]
  rfl

theorem candidate : normalizeCandidateTxHash h = some h := by
  have hlower : ∀ c ∈ lowerHexDigits, c.toLower = c := by decide
  have hhex : ∀ c ∈ lowerHexDigits, isAsciiHexdigit c = true := by decide
  simp only [normalizeCandidateTxHash]
  rw [trimMatches_eq_self (hh.all_false (by decide)),
    trimEndMatches_eq_self (hh.all_false (by decide)),
    trimMatches_eq_self (hh.all_false (by decide)), hh.stripHexPrefix_eq,
    if_pos ⟨hh.long, hh.short, List.all_eq_true.mpr fun c hc => hhex c (hh.digits c hc)⟩]
  exact congrArg some ((List.map_congr_left fun c hc => hlower c (hh.digits c hc)).trans
    (List.map_id h))

end ReceiptHash

variable {t : List Char}

theorem normalizeKeyQuotes_eq (hquotes : ∀ c ∈ t, isReceiptQuoteWrapper c = false)
    (hescape : '\\' ∉ t) : normalizeKeyQuotes t = t := by
  induction t with
  | nil => rfl
  | cons c t ih =>
    have hc : c ≠ '\\' := fun heq => hescape (heq ▸ List.mem_cons_self)
    rw [normalizeKeyQuotes, if_neg (fun h => hc h.1), hquotes c List.mem_cons_self,
      ih (fun d hd => hquotes d (List.mem_cons_of_mem _ hd)) (List.not_mem_of_not_mem_cons hescape)]
    rfl

theorem collapseWhitespace_eq (h : ∀ c ∈ t, isWhitespace c = false) :
    collapseWhitespace false t = t := by
  induction t with
  | nil => rfl
  | cons c t ih =>
    rw [collapseWhitespace, h c List.mem_cons_self, ih fun d hd => h d (List.mem_cons_of_mem _ hd)]
    rfl

variable {rounds : Nat}

namespace ReceiptHash

variable {h : List Char} {label : List Char}

/-- Every label holds a letter that is no digit. -/
theorem exists_mem_label (hlabel : label ∈ hashPrefixes) : ∃ c ∈ label, c ∉ lowerHexDigits := by
  have hall : ∀ label ∈ hashPrefixes, 't' ∈ label ∨ 'T' ∈ label := by decide +kernel
  rcases hall label hlabel with hmem | hmem
  · exact ⟨'t', hmem, by decide⟩
  · exact ⟨'T', hmem, by decide⟩

variable (hh : ReceiptHash h)
include hh

/-- Normalizing changes nothing. -/
theorem haystacks_eq : haystacks h = [h, h, h, h, h] := by
  have hquotes : normalizeKeyQuotes h = h :=
    normalizeKeyQuotes_eq (hh.all_false (by decide)) (hh.not_mem (by decide +kernel))
  have hdelimiter : ∀ c ∈ lowerHexDigits, normalizeDelimiter c = c := by decide
  have hmap : h.map normalizeDelimiter = h :=
    (List.map_congr_left fun c hc => hdelimiter c (hh.digits c hc)).trans (List.map_id h)
  have hkept : ∀ c ∈ lowerHexDigits, (!isControl c && !isInvisibleFiller c) = true := by decide
  have hfilter : h.filter (fun c => !isControl c && !isInvisibleFiller c) = h :=
    List.filter_eq_self.mpr fun c hc => hkept c (hh.digits c hc)
  simp only [haystacks, hquotes, hmap, collapseWhitespace_eq (hh.all_false (by decide)), hfilter]

theorem scanPrefix_eq_none (hlabel : label ∈ hashPrefixes) : scanPrefix label rounds h = none := by
  obtain ⟨c, hc, hdigit⟩ := exists_mem_label hlabel
  cases rounds with
  | zero => rfl
  | succ rounds => rw [scanPrefix, findAfter_eq_none hc (hh.not_mem hdigit)]

theorem parseWord_eq_none : parseWord h = none := by
  rw [parseWord, List.findSome?_eq_none_iff.mpr, Option.bind_none]
  intro label hlabel
  obtain ⟨c, hc, hdigit⟩ := exists_mem_label hlabel
  refine if_neg fun hfront => ?_
  exact hh.not_mem hdigit ((List.isPrefixOf_iff_prefix.mp hfront).subset hc)

theorem words_eq : words h = [h] := by
  have hsplit : h.splitOnP isWhitespace = [h] :=
    List.splitOnP_eq_singleton fun c hc => by
      rw [hh.all_false (p := isWhitespace) (by decide) c hc]
  rw [words, hsplit, List.filter_cons_of_pos (by simpa using hh.ne_nil), List.filter_nil]

/-- No label stands in a bare hash. -/
theorem parse_eq_none : parseTxHash h = none := by
  have hscan : ((haystacks h).findSome? fun haystack =>
      hashPrefixes.findSome? fun label =>
        scanPrefix label (haystack.length + 1) haystack) = none := by
    rw [hh.haystacks_eq, List.findSome?_eq_none_iff]
    intro haystack hmem
    obtain rfl : haystack = h := by simpa using hmem
    exact List.findSome?_eq_none_iff.mpr fun label hlabel => hh.scanPrefix_eq_none hlabel
  rw [parseTxHash, hscan, Option.none_or, hh.words_eq, List.findSome?_cons, hh.parseWord_eq_none]
  rfl

theorem peelQuotes_eq : peelQuotes rounds h = some h := by
  cases rounds with
  | zero => rfl
  | succ rounds =>
    rw [peelQuotes]
    intro startQuote tail _ _ heq _
    exact hh.not_mem (by decide) (heq ▸ List.mem_cons_self)

end ReceiptHash

/-- A reported hash is read back as it was. -/
theorem normalizePersistedTxHash_eq (hh : ReceiptHash h.toList) :
    normalizePersistedTxHash (some h) = some (some h) := by
  simp only [normalizePersistedTxHash, hh.trim_fillers, hh.peelQuotes_eq, hh.parse_eq_none,
    Option.none_or, hh.candidate, Option.bind_eq_bind, Option.bind_some, if_neg hh.ne_nil,
    Option.getD_some, String.ofList_toList]
  rfl

/-! ## Where the reader panics -/

/-- Quotes, each behind a backslash. -/
def escaped (quotes : List Char) : List Char := quotes.flatMap fun q => ['\\', q]

/-- An odd number of escaped quotes and nothing else. -/
def OddQuotes (t : List Char) : Prop :=
  ∃ quotes, quotes.length % 2 = 1 ∧ (∀ q ∈ quotes, isReceiptQuoteWrapper q = true) ∧
    t = escaped quotes

theorem escaped_append (qs qs' : List Char) : escaped (qs ++ qs') = escaped qs ++ escaped qs' :=
  List.flatMap_append

theorem backslash_no_quote : isReceiptQuoteWrapper '\\' = false := by decide +kernel

/-- A text between two escaped quotes, or one escaped quote that is both of them. -/
theorem wrapped_cases
    (hstart : isReceiptQuoteWrapper startQuote = true) (hfront : t = '\\' :: startQuote :: tail)
    (hback : t.reverse = endQuote :: '\\' :: tail') : (t = escaped [startQuote] ∧ t.length < 4) ∨
      (t = escaped [startQuote] ++ (t.drop 2).take (t.length - 4) ++ escaped [endQuote] ∧
        4 ≤ t.length) := by
  have hend : t = tail'.reverse ++ ['\\', endQuote] := by
    rw [← List.reverse_reverse t, hback]
    simp
  have hlength := congrArg List.length hend
  simp only [List.length_append, List.length_reverse, List.length_cons, List.length_nil] at hlength
  by_cases hlong : 4 ≤ t.length
  · right
    refine ⟨?_, hlong⟩
    obtain ⟨middle, hmiddle⟩ : ∃ middle, tail'.reverse = '\\' :: startQuote :: middle := by
      match hrev : tail'.reverse with
      | [] | [_] =>
        have := congrArg List.length hrev
        simp only [List.length_reverse, List.length_cons, List.length_nil] at this
        omega
      | a :: b :: middle =>
        rw [hrev, hfront] at hend
        simp only [List.cons_append, List.cons.injEq] at hend
        exact ⟨middle, by rw [← hend.1, ← hend.2.1]⟩
    rw [hmiddle] at hend
    have htake : (t.drop 2).take (t.length - 4) = middle := by
      rw [hend]
      simp
    rw [htake]
    simpa [escaped] using hend
  · left
    refine ⟨?_, by omega⟩
    match htail : tail with
    | [] => rw [hfront]; rfl
    | [last] =>
      -- With three characters the second last is the opening quote, which is no backslash.
      rw [hfront] at hback
      simp only [List.reverse_cons, List.reverse_nil, List.nil_append, List.cons_append,
        List.cons.injEq] at hback
      rw [hback.2.1, backslash_no_quote] at hstart
      cases hstart
    | _ :: _ :: _ =>
      rw [hfront] at hlong
      simp at hlong

theorem oddQuotes_single (hq : isReceiptQuoteWrapper q = true) : OddQuotes (escaped [q]) :=
  ⟨[q], rfl, by simpa using hq, rfl⟩

theorem oddQuotes_wrap (hq : isReceiptQuoteWrapper q = true)
    (hq' : isReceiptQuoteWrapper q' = true) :
    OddQuotes (escaped [q] ++ t ++ escaped [q']) ↔ OddQuotes t := by
  constructor
  · rintro ⟨quotes, hodd, hquotes, heq⟩
    -- The quotes at the two ends are the wrappers, unless there is one quote only.
    match quotes, hodd with
    | [a], _ =>
      have hlength := congrArg List.length heq
      simp [escaped] at hlength
    | a :: b :: rest, hodd =>
      obtain ⟨middle, last, hsnoc⟩ : ∃ middle last, b :: rest = middle ++ [last] :=
        ⟨_, _, (List.dropLast_concat_getLast (List.cons_ne_nil b rest)).symm⟩
      rw [hsnoc] at heq hodd hquotes
      rw [show a :: (middle ++ [last]) = [a] ++ middle ++ [last] from rfl, escaped_append,
        escaped_append] at heq
      obtain ⟨heq, -⟩ := List.append_inj' heq rfl
      obtain ⟨-, rfl⟩ := List.append_inj heq rfl
      refine ⟨middle, ?_, fun q hmem => hquotes q (by simp [hmem]), rfl⟩
      simp only [List.length_cons, List.length_append, List.length_nil] at hodd
      omega
  · rintro ⟨quotes, hodd, hquotes, rfl⟩
    refine ⟨[q] ++ quotes ++ [q'], ?_, ?_, by rw [escaped_append, escaped_append]⟩
    · simp only [List.length_append, List.length_cons, List.length_nil]
      omega
    · intro c hc
      simp only [List.mem_append, List.mem_singleton] at hc
      rcases hc with (rfl | hc) | rfl
      · exact hq
      · exact hquotes c hc
      · exact hq'

theorem OddQuotes.ends (h : OddQuotes t) :
    ∃ startQuote tail endQuote tail', t = '\\' :: startQuote :: tail ∧
      t.reverse = endQuote :: '\\' :: tail' ∧
      isReceiptQuoteWrapper startQuote = true ∧ isReceiptQuoteWrapper endQuote = true := by
  obtain ⟨quotes, hodd, hquotes, rfl⟩ := h
  have hne : quotes ≠ [] := by
    rintro rfl
    cases hodd
  obtain ⟨q, rest, rfl⟩ := List.exists_cons_of_ne_nil hne
  have hsnoc := List.dropLast_concat_getLast hne
  refine ⟨q, escaped rest, (q :: rest).getLast hne, (escaped (q :: rest).dropLast).reverse, rfl, ?_,
    hquotes q List.mem_cons_self, hquotes _ (List.getLast_mem hne)⟩
  conv_lhs => rw [← hsnoc, escaped_append]
  simp [escaped]

/-- The loop panics on an odd number of escaped quotes only. -/
theorem peelQuotes_eq_none (hrounds : t.length ≤ rounds) :
    peelQuotes rounds t = none ↔ OddQuotes t := by
  induction rounds generalizing t with
  | zero =>
    obtain rfl := List.length_eq_zero_iff.mp (Nat.le_zero.mp hrounds)
    refine ⟨nofun, fun h => ?_⟩
    obtain ⟨_, _, _, _, hfront, -⟩ := h.ends
    cases hfront
  | succ rounds ih =>
    rw [peelQuotes.eq_def]
    dsimp only
    split
    · next startQuote tail endQuote tail' hback =>
      split
      · next hquotes =>
        obtain ⟨hstart, hend⟩ := Bool.and_eq_true_iff.mp hquotes
        rcases wrapped_cases hstart rfl hback with ⟨hone, hshort⟩ | ⟨hwrap, hlong⟩
        · rw [if_neg (by omega)]
          exact ⟨fun _ => hone ▸ oddQuotes_single hstart, fun _ => rfl⟩
        · rw [if_pos hlong, ih (by rw [List.length_take, List.length_drop]; omega)]
          conv_rhs => rw [hwrap]
          exact (oddQuotes_wrap hstart hend).symm
      · next hquotes =>
        refine ⟨nofun, fun h => ?_⟩
        obtain ⟨q, _, q', _, hfront', hback', hq, hq'⟩ := h.ends
        rw [hback] at hback'
        simp only [List.cons.injEq, true_and] at hfront' hback'
        rw [hfront'.1, hback'.1, hq, hq'] at hquotes
        exact absurd rfl hquotes
    · next hno =>
      refine ⟨nofun, fun h => ?_⟩
      obtain ⟨q, tail, q', tail', hfront, hback, -⟩ := h.ends
      exact (hno q tail q' tail' hfront hback).elim

/-- A value on which the reader panics. -/
def Panics (value : String) : Prop := OddQuotes (trimMatches isAuditFiller value.toList)

theorem normalizePersistedTxHash_eq_none {hash : Option String} :
    normalizePersistedTxHash hash = none ↔ ∃ value, hash = some value ∧ Panics value := by
  cases hash with
  | none => simp [normalizePersistedTxHash]
  | some value =>
    simp only [Option.some.injEq, exists_eq_left', Panics, ← peelQuotes_eq_none le_rfl,
      normalizePersistedTxHash]
    cases peelQuotes (trimMatches isAuditFiller value.toList).length
      (trimMatches isAuditFiller value.toList) with
    | none => simp
    | some trimmed =>
      simp only [Option.bind_eq_bind, Option.bind_some, reduceCtorEq, iff_false]
      split <;> simp

/-! ## The scan of the log -/

/-- The hash of a stage, taken from its values, newest first. -/
def scanStage : List (Option String) → Option (Option String)
  | [] => some none
  | value :: rest =>
    match normalizePersistedTxHash value with
    | none => none
    | some (some h) => some (some h)
    | some none => scanStage rest

variable {acks : List AckRecord} {taskId : U64}

theorem persistedLoop_eq : persistedLoop taskId acks (commit, reveal) =
      (if commit.isNone then scanStage ((acks.filter (·.taskId = taskId)).map
        AckRecord.commitTxHash) else some commit).bind fun commit =>
      (if reveal.isNone then scanStage ((acks.filter (·.taskId = taskId)).map
        AckRecord.revealTxHash) else some reveal).bind fun reveal => some (commit, reveal) := by
  induction acks generalizing commit reveal with
  | nil => cases commit <;> cases reveal <;> rfl
  | cons ack acks ih =>
    rw [persistedLoop]
    by_cases htask : ack.taskId = taskId
    · rw [if_neg (not_not.mpr htask), List.filter_cons_of_pos (by simpa using htask), List.map_cons,
        List.map_cons, scanStage, scanStage]
      -- Each stage is read here only while it has no hash.
      cases commit <;> cases reveal <;>
        rcases normalizePersistedTxHash ack.commitTxHash with _ | _ | h <;>
        rcases normalizePersistedTxHash ack.revealTxHash with _ | _ | h' <;> simp [ih]
    · rw [if_pos htask, List.filter_cons_of_neg (by simpa using htask), ih]

/-- A value that gives a hash. -/
def Usable (value : Option String) : Prop := ∃ h, normalizePersistedTxHash value = some (some h)

/-- Values on which the reader panics stand behind one that gives a hash. -/
def Intact (values : List (Option String)) : Prop :=
  ∀ before value after, values = before ++ some value :: after → Panics value → ∃ v ∈ before,
    Usable v

/-- The normalizers of the source. -/
def receiptText : ReceiptText :=
  ⟨trimBoundaryAuditFillers, fun value => (normalizePersistedTxHash (some value)).getD none⟩

variable {value : Option String}

theorem bind_normalizePersisted :
    value.bind receiptText.normalizePersisted = (normalizePersistedTxHash value).getD none := by
  cases value <;> rfl

variable {rest : List (Option String)}

theorem intact_cons_usable (h : Usable value) : Intact (value :: rest) := by
  intro before panicking after heq hpanics
  cases before with
  | nil =>
    obtain ⟨hash, hhash⟩ := h
    rw [(List.cons.inj heq).1, normalizePersistedTxHash_eq_none.mpr ⟨_, rfl, hpanics⟩] at hhash
    cases hhash
  | cons v before => exact ⟨v, List.mem_cons_self, (List.cons.inj heq).1 ▸ h⟩

theorem intact_cons_empty
    (h : normalizePersistedTxHash value = some none) : Intact (value :: rest) ↔ Intact rest := by
  constructor
  · intro hintact before panicking after heq hpanics
    obtain ⟨v, hmem, husable⟩ := hintact (value :: before) panicking after
      (by rw [heq]; rfl) hpanics
    rcases List.mem_cons.mp hmem with rfl | hmem
    · obtain ⟨hash, hhash⟩ := husable
      cases h.symm.trans hhash
    · exact ⟨v, hmem, husable⟩
  · intro hintact before panicking after heq hpanics
    cases before with
    | nil =>
      rw [(List.cons.inj heq).1, normalizePersistedTxHash_eq_none.mpr ⟨_, rfl, hpanics⟩] at h
      cases h
    | cons v before =>
      obtain ⟨v, hmem, husable⟩ := hintact before panicking after (List.cons.inj heq).2 hpanics
      exact ⟨v, List.mem_cons_of_mem _ hmem, husable⟩

/-- The scan of one stage returns on intact values only, and then gives the newest hash. -/
theorem scanStage_eq (values : List (Option String)) : (Intact values → scanStage values =
      some (values.findSome? fun v => v.bind receiptText.normalizePersisted)) ∧
    (¬ Intact values → scanStage values = none) := by
  induction values with
  | nil =>
    refine ⟨fun _ => rfl, fun h => (h ?_).elim⟩
    intro before value after heq
    cases before <;> cases heq
  | cons value rest ih =>
    rw [scanStage, List.findSome?_cons, bind_normalizePersisted]
    cases hvalue : normalizePersistedTxHash value with
    | none =>
      refine ⟨fun hintact => ?_, fun _ => rfl⟩
      obtain ⟨panicking, rfl, hpanics⟩ := normalizePersistedTxHash_eq_none.mp hvalue
      obtain ⟨v, hmem, -⟩ := hintact [] panicking rest rfl hpanics
      cases hmem
    | some hash =>
      cases hash with
      | none =>
        rw [intact_cons_empty hvalue]
        exact ih
      | some hash => exact ⟨fun _ => rfl, fun h => (h (intact_cons_usable ⟨hash, hvalue⟩)).elim⟩

/-- The values of both stages of a task are intact. -/
structure IntactFor (acks : List AckRecord) (taskId : U64) : Prop where
  commit : Intact ((acks.reverse.filter (·.taskId = taskId)).map AckRecord.commitTxHash)
  reveal : Intact ((acks.reverse.filter (·.taskId = taskId)).map AckRecord.revealTxHash)

section
variable {codec : AckCodec} {file : Option ByteArray} {taskId : U64}

theorem readAckHashes_eq (h : IntactFor (loadAckRecords codec (ackLogText file)) taskId) :
    readAckHashes codec file taskId =
      some (persistedAckHashesForTask receiptText (loadAckRecords codec (ackLogText file))
        taskId) := by
  rw [readAckHashes, persistedLoop_eq]
  simp only [Option.isNone_none, if_true, (scanStage_eq _).1 h.commit, (scanStage_eq _).1 h.reveal,
    List.findSome?_map]
  rfl

theorem readAckHashes_eq_none (h : ¬ IntactFor (loadAckRecords codec (ackLogText file)) taskId) :
    readAckHashes codec file taskId = none := by
  rw [readAckHashes, persistedLoop_eq]
  simp only [Option.isNone_none, if_true]
  by_cases hcommit : Intact (((loadAckRecords codec (ackLogText file)).reverse.filter
      (·.taskId = taskId)).map AckRecord.commitTxHash)
  · have hreveal := (scanStage_eq _).2 fun hreveal => h ⟨hcommit, hreveal⟩
    rw [(scanStage_eq _).1 hcommit, hreveal]
    rfl
  · rw [(scanStage_eq _).2 hcommit]
    rfl

end

/-- A hash that some run of the adapter reports. -/
def Reported (h : String) : Prop :=
  ∃ (E : Type) (exec : Nat → Except E AdapterOutput) (maxRetries : U32) (res : AdapterExecResult),
    runAdapterWithRetry exec maxRetries = .ok res ∧ res.txHash = some h

theorem Reported.receiptHash (hreported : Reported h) : ReceiptHash h.toList := by
  obtain ⟨E, exec, maxRetries, res, hrun, htx⟩ := hreported
  exact receiptHash_of_run hrun htx

/-- A reported hash goes into the ack as it is. -/
theorem normalizeAdapterTxHash_eq (hh : ReceiptHash h.toList) :
    normalizeAdapterTxHash receiptText (some h) = some h := by
  have htrim : receiptText.trimFillers h = h := by
    change String.ofList _ = h
    rw [hh.trim_fillers, String.ofList_toList]
  have hne : h ≠ "" := by
    rintro rfl
    exact hh.ne_nil rfl
  simp only [normalizeAdapterTxHash, Option.bind_some, trimmedHash, htrim, if_neg hne]

structure Newest (acks : List AckRecord) (taskId : U64) (ack : AckRecord) : Prop where
  own : ack.taskId = taskId
  last : ∃ before later, acks = before ++ ack :: later ∧ ∀ other ∈ later, other.taskId ≠ taskId

theorem Newest.own_eq {ack : AckRecord} (h : Newest acks taskId ack) :
    ∃ rest, acks.reverse.filter (·.taskId = taskId) = ack :: rest := by
  obtain ⟨before, later, rfl, hlater⟩ := h.last
  have hnone : later.reverse.filter (·.taskId = taskId) = [] :=
    List.filter_eq_nil_iff.mpr fun other hmem =>
      by simpa using hlater other (List.mem_reverse.mp hmem)
  refine ⟨before.reverse.filter (·.taskId = taskId), ?_⟩
  rw [List.reverse_append, List.reverse_cons, List.filter_append, List.filter_append, hnone,
    List.filter_cons_of_pos (by simpa using h.own)]
  rfl

/-- What a restart reads from a log: the newest hash of each stage, and a reported hash of the
newest record unchanged. -/
structure SurvivesRestart (codec : AckCodec) (file : Option ByteArray) (taskId : U64) : Prop where
  returns : readAckHashes codec file taskId =
    some (persistedAckHashesForTask receiptText (loadAckRecords codec (ackLogText file)) taskId)
  commit : ∀ ack h, Newest (loadAckRecords codec (ackLogText file)) taskId ack → Reported h →
    ack.commitTxHash = normalizeAdapterTxHash receiptText (some h) →
    ∃ reveal, readAckHashes codec file taskId = some (some h, reveal)
  reveal : ∀ ack h, Newest (loadAckRecords codec (ackLogText file)) taskId ack → Reported h →
    ack.revealTxHash = normalizeAdapterTxHash receiptText (some h) →
    ∃ commit, readAckHashes codec file taskId = some (commit, some h)

variable {codec : AckCodec}

/-- A restart reads the log's hashes exactly where no value of an odd number of escaped quotes is
newer than every usable one of its stage. -/
theorem survivesRestart_iff :
    SurvivesRestart codec file taskId ↔
      IntactFor (loadAckRecords codec (ackLogText file)) taskId := by
  constructor
  · intro h
    by_contra hbroken
    cases h.returns.symm.trans (readAckHashes_eq_none hbroken)
  · intro hintact
    have hreturns := readAckHashes_eq hintact
    refine ⟨hreturns, fun ack h hnewest hreported hcommit =>
      ?_, fun ack h hnewest hreported hreveal => ?_⟩
    · obtain ⟨rest, hown⟩ := hnewest.own_eq
      have hh := hreported.receiptHash
      refine ⟨_, hreturns.trans (congrArg some (Prod.ext ?_ rfl))⟩
      change List.findSome? _ _ = some h
      rw [hown, List.findSome?_cons, bind_normalizePersisted, hcommit, normalizeAdapterTxHash_eq hh,
        normalizePersistedTxHash_eq hh]
      rfl
    · obtain ⟨rest, hown⟩ := hnewest.own_eq
      have hh := hreported.receiptHash
      refine ⟨_, hreturns.trans (congrArg some (Prod.ext rfl ?_))⟩
      change List.findSome? _ _ = some h
      rw [hown, List.findSome?_cons, bind_normalizePersisted, hreveal, normalizeAdapterTxHash_eq hh,
        normalizePersistedTxHash_eq hh]
      rfl

/-! ## Appended records -/

def appendAck (codec : AckCodec) (log : List Char) (ack : AckRecord) : List Char :=
  log ++ codec.toJson ack ++ ['\n']

theorem loadAckRecords_appendAcks (hlog : AtLineStart log) :
    loadAckRecords codec (acks.foldl (appendAck codec) log) = loadAckRecords codec log ++ acks := by
  induction acks generalizing log with
  | nil => simp
  | cons ack acks ih =>
    rw [List.foldl_cons, @ih (appendAck codec log ack) atLineStart_snoc, appendAck,
      loadAckRecords_newline hlog, List.append_assoc, List.singleton_append]

theorem ackLogText_toUTF8 (log : List Char) :
    ackLogText (some (String.ofList log).toUTF8) = log := by
  have hvalid : (String.ofList log).toUTF8.IsValidUTF8 := (String.ofList log).isValidUTF8
  have hread : String.fromUTF8? (String.ofList log).toUTF8 = some (String.ofList log) := by
    rw [String.fromUTF8?, dif_pos hvalid]
    rfl
  rw [ackLogText, Option.bind_some, hread, Option.map_some, Option.getD_some, String.toList_ofList]

theorem newest_appendAcks {log : List Char} {ack : AckRecord} {later : List AckRecord}
    (hlog : AtLineStart log) (hlater : ∀ other ∈ later, other.taskId ≠ ack.taskId) :
    Newest (loadAckRecords codec ((ack :: later).foldl (appendAck codec) log)) ack.taskId ack :=
  ⟨rfl, loadAckRecords codec log, later, loadAckRecords_appendAcks hlog, hlater⟩

/-- A restart reads the evidence of every log in which no value of an odd number of escaped quotes
is newer than every usable one of its stage; and a record that is appended to whole lines is then
the newest of its task. -/
theorem receipts_survive_restart_iff (codec : AckCodec) :
    (∀ file taskId, SurvivesRestart codec file taskId ↔
      IntactFor (loadAckRecords codec (ackLogText file)) taskId) ∧
    ∀ log ack later, AtLineStart log → (∀ other ∈ later, other.taskId ≠ ack.taskId) →
      Newest (loadAckRecords codec (ackLogText
        (some (String.ofList ((ack :: later).foldl (appendAck codec) log)).toUTF8)))
          ack.taskId ack := by
  refine ⟨fun file taskId => survivesRestart_iff, fun log ack later hlog hlater => ?_⟩
  rw [ackLogText_toUTF8]
  exact newest_appendAcks hlog hlater

def sampleReceipt (taskId : U64) (commit : String) : AckRecord :=
  ⟨1000, taskId, "failed", some commit, none, none, none⟩

def sampleAckFile (acks : List AckRecord) : Option ByteArray :=
  some (String.ofList (acks.foldl (appendAck sampleCodec) [])).toUTF8

theorem loadAckRecords_sampleAckFile (acks : List AckRecord) :
    loadAckRecords sampleCodec (ackLogText (sampleAckFile acks)) = acks := by
  rw [sampleAckFile, ackLogText_toUTF8, loadAckRecords_appendAcks (.inl rfl)]
  simp [loadAckRecords]

theorem reported_sample : Reported "deadbeef" := by
  have htx : AdapterOutput.txHash ⟨true, some 0, "tx_hash=deadbeef", ""⟩ = some "deadbeef" := by
    decide +kernel
  refine ⟨Unit, fun _ => .ok ⟨true, some 0, "tx_hash=deadbeef", ""⟩, 0,
    ⟨true, 0, some "deadbeef", true⟩, ?_, rfl⟩
  change Except.ok (AdapterExecResult.mk true 0 ((AdapterOutput.txHash _).or none) true) = _
  rw [htx]
  rfl

/-- An escaped quote, then a reported hash and the record of another task. -/
def sampleAcks : List AckRecord :=
  [sampleReceipt 1 "\\\"", sampleReceipt 1 "deadbeef", sampleReceipt 2 "cafe"]

/-- The reported hash is read back. -/
theorem sample_receipts_survive_restart :
    ∃ reveal, readAckHashes sampleCodec (sampleAckFile sampleAcks) 1 =
      some (some "deadbeef", reveal) := by
  obtain ⟨hsurvives, happended⟩ := receipts_survive_restart_iff sampleCodec
  have hh := reported_sample.receiptHash
  have hintact : IntactFor (loadAckRecords sampleCodec (ackLogText (sampleAckFile sampleAcks)))
      1 := by
    rw [loadAckRecords_sampleAckFile]
    refine ⟨intact_cons_usable ⟨_, normalizePersistedTxHash_eq hh⟩, ?_⟩
    refine (intact_cons_empty rfl).mpr ((intact_cons_empty rfl).mpr ?_)
    intro before value after heq
    cases before <;> cases heq
  have hnewest := happended (appendAck sampleCodec [] (sampleReceipt 1 "\\\""))
    (sampleReceipt 1 "deadbeef") [sampleReceipt 2 "cafe"] atLineStart_snoc (by decide)
  rw [← List.foldl_cons] at hnewest
  exact ((hsurvives (sampleAckFile sampleAcks) 1).mpr hintact).commit _ "deadbeef" hnewest
    reported_sample (normalizeAdapterTxHash_eq hh).symm

/-- One escaped quote in place of the hash: reading the log panics. -/
theorem escaped_quote_panics :
    readAckHashes sampleCodec (sampleAckFile [sampleReceipt 1 "\\\""]) 1 = none := by
  rw [readAckHashes, loadAckRecords_sampleAckFile]
  decide +kernel

end Trillionnium.WorkerAgent
