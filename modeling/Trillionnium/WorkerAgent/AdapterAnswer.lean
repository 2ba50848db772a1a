import Trillionnium.Lib.Lines
import Trillionnium.Lib.Text

/-!
# The adapter's answer behind log noise

The output of an adapter is cleaned of terminal sequences and then tried as JSON in four ways: as a
whole, line by line from the end, from the first to the last brace of each line, and as the last
object whose braces balance outside of strings. The deserialiser is a parameter, with the facts
about JSON texts that the four ways rest on. What the ways find is said of the text alone: the part
of a line between its braces (`Braced`), and the last object of a text whose strings and braces are
closed by a grammar (`Closed`, `LastObject`).

An object on one line is always found. Over several lines an object nested in it can be taken in its
place, and a quote that the noise leaves open turns the inside and the outside of its strings
around.
-/

namespace Trillionnium.WorkerAgent

open Lib Lib.Text Lib.Lines

structure LlmAdapterResponse where
  outputText : String
  providerRequestId : Option String := none
  provider : Option String := none
  model : Option String := none
  adapter : Option String := none
  agentProtocol : Option String := none
  complianceProfile : Option String := none
deriving DecidableEq

def isInvisibleReceiptFiller (c : Char) : Bool :=
  c.toNat ∈ [0x061C, 0x00AD, 0x034F, 0x180E, 0x200B, 0x200C, 0x200D, 0x200E, 0x200F, 0x202A,
    0x202B, 0x202C, 0x202D, 0x202E, 0x2060, 0x2061, 0x2062, 0x2063, 0x2064, 0x2066, 0x2067, 0x2068,
    0x2069, 0xFE0E, 0xFE0F, 0xFEFF]

/-! ## Terminal sequences -/

/-- Behind the final byte of a control sequence. -/
def skipControlSequence : List Char → List Char
  | [] => []
  | c :: rest => if '@' ≤ c ∧ c ≤ '~' then rest else skipControlSequence rest

/-- Behind the terminator of a string sequence: an escape and a backslash or, where `bell`, the
bell. -/
def skipStringSequence (bell : Bool) (sawEsc : Bool) : List Char → List Char
  | [] => []
  | c :: rest =>
    if sawEsc && c = '\\' then rest
    else if bell && c = '\x07' then rest
    else skipStringSequence bell (c = '\x1b') rest

/-- Every round takes at least one character, so the length of the text is enough rounds. -/
def stripLoop : Nat → List Char → List Char
  | 0, _ => []
  | _ + 1, [] => []
  | rounds + 1, c :: rest =>
    if c ≠ '\x1b' then
      if isControl c && !(c = '\n' || c = '\r' || c = '\t') then stripLoop rounds rest
      else c :: stripLoop rounds rest
    else
      match rest with
      | [] => []
      | kind :: rest =>
        if kind = '[' then stripLoop rounds (skipControlSequence rest)
        else if kind = ']' then stripLoop rounds (skipStringSequence true false rest)
        else if kind = 'P' || kind = '^' || kind = '_' then
          stripLoop rounds (skipStringSequence false false rest)
        else stripLoop rounds rest

def stripTerminalControlSequences (input : List Char) : List Char := stripLoop input.length input

/-! ## The last balanced object -/

structure Scan where
  depth : Nat := 0
  /-- What has been read since the brace at which the object starts. -/
  start : Option (List Char) := none
  inString : Bool := false
  escaped : Bool := false
  last : Option (List Char) := none
deriving DecidableEq

def Scan.step (s : Scan) (c : Char) : Scan :=
  let read := s.start.map (· ++ [c])
  if s.inString then
    if s.escaped then { s with start := read, escaped := false }
    else if c = '\\' then { s with start := read, escaped := true }
    else if c = '\x22' then { s with start := read, inString := false }
    else { s with start := read }
  else if c = '\x22' then { s with start := read, inString := true }
  else if c = '\x7b' then
    { s with start := if s.depth = 0 then some [c] else read, depth := s.depth + 1 }
  else if c = '\x7d' then
    if s.depth = 0 then { s with start := read }
    else if s.depth - 1 = 0 then { s with start := none, depth := 0, last := read.or s.last }
    else { s with start := read, depth := s.depth - 1 }
  else { s with start := read }

def Scan.run (s : Scan) (input : List Char) : Scan := input.foldl Scan.step s

def lastBalancedJsonObject (input : List Char) : Option (List Char) := (Scan.run {} input).last

/-! ## The four ways -/

/-- Without the whitespace in front, and then without the fillers in front. -/
def normalize (sanitized : List Char) : List Char :=
  (sanitized.dropWhile isWhitespace).dropWhile isInvisibleReceiptFiller

section Parse
variable (fromStr : List Char → Option LlmAdapterResponse)

/-- From the first opening brace of a line to its last closing brace. -/
def bracedPart (line : List Char) : Option (List Char) :=
  let part := trimEndMatches (· ≠ '\x7d') (line.dropWhile (· ≠ '\x7b'))
  if part = [] then none else some part

/-- What one line gives: the trimmed line, and then its part between braces. -/
def lineAnswer (line : List Char) : Option LlmAdapterResponse :=
  let line := trimMatches isWhitespace line
  let whole :=
    if line.head? = some '\x7b' ∧ line.getLast? = some '\x7d' then fromStr line else none
  whole.or ((bracedPart line).bind fromStr)

/-- The answer of the last line that has one. -/
def linesAnswer (text : List Char) : Option LlmAdapterResponse :=
  (lines text).reverse.findSome? (lineAnswer fromStr)

def parseResponseWithStandardRules (stdout : List Char) : Except String LlmAdapterResponse :=
  let normalized := normalize (stripTerminalControlSequences stdout)
  match fromStr normalized with
  | some parsed => .ok parsed
  | none =>
    match linesAnswer fromStr normalized with
    | some parsed => .ok parsed
    | none =>
      match (lastBalancedJsonObject normalized).bind fromStr with
      | some parsed => .ok parsed
      | none => if normalized.head? = some '\x7b' then .error "invalid-json"
        else .error "no-json-line"

end Parse

/-! ## JSON texts -/

def isJsonWhitespace (c : Char) : Bool := c = ' ' || c = '\n' || c = '\t' || c = '\r'

/-- The inside of a string: a backslash takes the character behind it. -/
inductive StringBody : List Char → Prop
  | nil : StringBody []
  | plain {c : Char} (hquote : c ≠ '\x22') (hescape : c ≠ '\\') : StringBody [c]
  | escaped (c : Char) : StringBody ['\\', c]
  | append {s t : List Char} (hs : StringBody s) (ht : StringBody t) : StringBody (s ++ t)

/-- Every string of the text is closed, and every brace that is opened. A closing brace has its
opening one, or where `stray` it may have none. -/
inductive Closed : Bool → List Char → Prop
  | nil {stray : Bool} : Closed stray []
  | plain {stray : Bool} {c : Char} (hquote : c ≠ '\x22') (hopen : c ≠ '\x7b')
      (hclose : c = '\x7d' → stray = true) : Closed stray [c]
  | string {stray : Bool} {s : List Char} (hs : StringBody s) :
    Closed stray ('\x22' :: s ++ ['\x22'])
  | object {stray : Bool} {s : List Char} (hs : Closed false s) :
    Closed stray ('\x7b' :: s ++ ['\x7d'])
  | append {stray : Bool} {s t : List Char} (hs : Closed stray s) (ht : Closed stray t) :
    Closed stray (s ++ t)

/-- From an opening brace to the one that closes it. -/
def ObjectText (text : List Char) : Prop := ∃ s, Closed false s ∧ text = '\x7b' :: s ++ ['\x7d']

/-- An object stands in the text, outside of its strings and of other objects. -/
def HasObject (text : List Char) : Prop :=
  ∃ front part back, text = front ++ part ++ back ∧ Closed true front ∧ ObjectText part

def LastObject (text part : List Char) : Prop :=
  ∃ front back, text = front ++ part ++ back ∧ Closed true front ∧ ObjectText part ∧
    ¬ HasObject back

theorem ObjectText.head (h : ObjectText text) : text.head? = some '\x7b' := by
  obtain ⟨s, -, rfl⟩ := h
  rfl

/-- A deserialiser of responses. A response is an object, or an array of strings and nulls. -/
structure ResponseReader where
  fromStr : List Char → Option LlmAdapterResponse
  /-- JSON whitespace around an accepted text is skipped. -/
  fromStr_padded : ∀ {front text back r}, (∀ c ∈ front, isJsonWhitespace c = true) →
    (∀ c ∈ back, isJsonWhitespace c = true) → fromStr text = some r →
    fromStr (front ++ text ++ back) = some r
  /-- An accepted text is an object or an array between whitespace. -/
  exists_text : ∀ {text r}, fromStr text = some r → ∃ front body back,
    text = front ++ body ++ back ∧
    (∀ c ∈ front, isJsonWhitespace c = true) ∧ (∀ c ∈ back, isJsonWhitespace c = true) ∧
    fromStr body = some r ∧ (ObjectText body ∨ body.head? = some '[')
  /-- An accepted text is not accepted behind a line that holds anything but whitespace. -/
  fromStr_behind : ∀ {front text r}, (∀ c ∈ front, c ≠ '\x7b' ∧ c ≠ '\x7d') →
    (∃ c ∈ front, isJsonWhitespace c = false) → fromStr text = some r →
    fromStr (front ++ '\n' :: text) = none

/-! ## Noise -/

/-- A text without braces, and without control characters other than the newline. -/
def Noise (text : List Char) : Prop :=
  ∀ c ∈ text, c ≠ '\x7b' ∧ c ≠ '\x7d' ∧ (isControl c = true → c = '\n')

/-- No control characters other than those of JSON whitespace. -/
def Printable (text : List Char) : Prop :=
  ∀ c ∈ text, isControl c = true → c = '\n' ∨ c = '\r' ∨ c = '\t'

/-- Whitespace, then fillers, then JSON whitespace. -/
def Blank (noise : List Char) : Prop :=
  ∃ front fillers back, noise = front ++ fillers ++ back ∧ (∀ c ∈ front, isWhitespace c = true) ∧
    (∀ c ∈ fillers, isInvisibleReceiptFiller c = true) ∧ ∀ c ∈ back, isJsonWhitespace c = true

/-- The text is an object, not an array. -/
def IsObject (text : List Char) : Prop := (text.dropWhile isJsonWhitespace).head? = some '\x7b'

/-- From the first opening brace of a line to its last closing one. -/
def Braced (line part : List Char) : Prop :=
  ∃ front back, line = front ++ part ++ back ∧ '\x7b' ∉ front ∧ '\x7d' ∉ back ∧
    part.head? = some '\x7b' ∧ part.getLast? = some '\x7d'

/-- The braces of the line hold a response. -/
def LineDenotes (fromStr : List Char → Option LlmAdapterResponse) (line : List Char)
    (r : LlmAdapterResponse) : Prop :=
  ∃ part, Braced line part ∧ fromStr part = some r

/-- The last line of the text that denotes a response denotes this one. -/
def LastLineDenotes (fromStr : List Char → Option LlmAdapterResponse) (text : List Char)
    (r : LlmAdapterResponse) : Prop :=
  ∃ front line back, lines text = front ++ line :: back ∧ LineDenotes fromStr line r ∧
    ∀ line ∈ back, ∀ r, ¬ LineDenotes fromStr line r

instance {text : List Char} : Decidable (Noise text) := inferInstanceAs (Decidable (∀ _ ∈ _, _))
instance {text : List Char} : Decidable (Printable text) := inferInstanceAs (Decidable (∀ _ ∈ _, _))
instance {text : List Char} : Decidable (IsObject text) := inferInstanceAs (Decidable (_ = _))

/-! ### What is stripped -/

theorem stripLoop_eq_self (h : Printable text) (hrounds : text.length ≤ rounds) :
    stripLoop rounds text = text := by
  induction text generalizing rounds with
  | nil => cases rounds <;> rfl
  | cons c text ih =>
    obtain ⟨rounds, rfl⟩ : ∃ n, rounds = n + 1 :=
      ⟨rounds - 1, by simp only [List.length_cons] at hrounds; omega⟩
    have hrest : stripLoop rounds text = text :=
      ih (fun d hd => h d (List.mem_cons_of_mem c hd)) (by simpa using hrounds)
    have hc := h c List.mem_cons_self
    have hesc : c ≠ '\x1b' := by
      rintro rfl
      exact absurd (hc (by decide)) (by decide)
    have hkept : (isControl c && !(c = '\n' || c = '\r' || c = '\t')) = false := by
      cases hcontrol : isControl c with
      | false => rfl
      | true => rcases hc hcontrol with rfl | rfl | rfl <;> rfl
    unfold stripLoop
    rw [if_pos hesc, hkept, if_neg Bool.false_ne_true, hrest]

theorem stripTerminalControlSequences_eq_self (h : Printable text) :
    stripTerminalControlSequences text = text :=
  stripLoop_eq_self h le_rfl

theorem Noise.printable_append (hnoise : Noise noise) (hjson : Printable json) :
    Printable (noise ++ '\n' :: json) := by
  intro c hc hcontrol
  rcases List.mem_append.mp hc with hc | hc
  · exact .inl ((hnoise c hc).2.2 hcontrol)
  · rcases List.mem_cons.mp hc with rfl | hc
    · exact .inl rfl
    · exact hjson c hc hcontrol

/-! ### What is trimmed -/

section Normalize
variable {noise json : List Char}

theorem isWhitespace_of_json (hc : isJsonWhitespace c = true) : isWhitespace c = true := by
  have hcases : c = ' ' ∨ c = '\n' ∨ c = '\t' ∨ c = '\r' := by
    simpa [isJsonWhitespace, or_assoc] using hc
  rcases hcases with rfl | rfl | rfl | rfl <;> rfl

theorem normalize_subset : normalize noise ⊆ noise :=
  List.Subset.trans (List.dropWhile_suffix _).subset (List.dropWhile_suffix _).subset

theorem blank_iff : Blank noise ↔ ∀ c ∈ normalize noise, isJsonWhitespace c = true := by
  constructor
  · rintro ⟨front, fillers, back, rfl, hfront, hfillers, hback⟩ c hc
    rw [normalize, List.append_assoc, dropWhile_append_of_all hfront] at hc
    by_cases hnil : fillers.dropWhile isWhitespace = []
    · rw [dropWhile_append_of_all (List.dropWhile_eq_nil_iff.mp hnil)] at hc
      exact hback c (normalize_subset hc)
    · rw [dropWhile_append_of_ne_nil hnil, dropWhile_append_of_all fun d hd =>
        hfillers d ((List.dropWhile_suffix _).subset hd)] at hc
      exact hback c ((List.dropWhile_suffix _).subset hc)
  · intro h
    refine ⟨noise.takeWhile isWhitespace,
      (noise.dropWhile isWhitespace).takeWhile isInvisibleReceiptFiller, normalize noise, ?_,
      fun c hc => List.mem_takeWhile_imp hc, fun c hc => List.mem_takeWhile_imp hc, h⟩
    rw [List.append_assoc, normalize, List.takeWhile_append_dropWhile,
      List.takeWhile_append_dropWhile]

/-- Where the noise is whitespace the trimming goes on, up to the first character that stays. -/
theorem normalize_spaces (hnoise : ∀ d ∈ noise, isWhitespace d = true)
    (hspace : isWhitespace c = false) (hfiller : isInvisibleReceiptFiller c = false) :
    normalize (noise ++ c :: json) = c :: json := by
  rw [normalize, dropWhile_append_of_all hnoise, List.dropWhile_cons_of_neg (by simp [hspace]),
    List.dropWhile_cons_of_neg (by simp [hfiller])]

/-- Where the noise is more than whitespace the trimming ends in it, or at the newline. -/
theorem normalize_behind (hspace : noise.dropWhile isWhitespace ≠ []) :
    normalize (noise ++ '\n' :: json) = normalize noise ++ '\n' :: json := by
  rw [normalize, dropWhile_append_of_ne_nil hspace, normalize]
  by_cases hfiller : (noise.dropWhile isWhitespace).dropWhile isInvisibleReceiptFiller = []
  · rw [dropWhile_append_of_all (List.dropWhile_eq_nil_iff.mp hfiller), hfiller]
    rfl
  · exact dropWhile_append_of_ne_nil hfiller

end Normalize

/-! ### What a line gives -/

section Lines
variable {fromStr : List Char → Option LlmAdapterResponse}
  {line part front back noise json : List Char} {r : LlmAdapterResponse}

theorem bracedPart_padded (hfront : '\x7b' ∉ front) (hback : '\x7d' ∉ back) :
    bracedPart (front ++ line ++ back) = bracedPart line := by
  have hfront : ∀ c ∈ front, decide (c ≠ '\x7b') = true := fun c hc =>
    decide_eq_true (ne_of_mem_of_not_mem hc hfront)
  have hback : ∀ c ∈ back.reverse, decide (c ≠ '\x7d') = true := fun c hc =>
    decide_eq_true (ne_of_mem_of_not_mem (List.mem_reverse.mp hc) hback)
  rw [bracedPart, bracedPart, List.append_assoc, dropWhile_append_of_all hfront]
  by_cases hnil : line.dropWhile (· ≠ '\x7b') = []
  · have hrest : trimEndMatches (· ≠ '\x7d') (back.dropWhile (· ≠ '\x7b')) = [] := by
      rw [trimEndMatches, List.dropWhile_eq_nil_iff.mpr, List.reverse_nil]
      exact fun c hc => hback c (List.mem_reverse.mpr
        ((List.dropWhile_suffix _).subset (List.mem_reverse.mp hc)))
    rw [dropWhile_append_of_all (List.dropWhile_eq_nil_iff.mp hnil), hrest, hnil]
    rfl
  · rw [dropWhile_append_of_ne_nil hnil, trimEndMatches, List.reverse_append,
      dropWhile_append_of_all hback, trimEndMatches]

theorem bracedPart_self (hhead : line.head? = some '\x7b') (hlast : line.getLast? = some '\x7d') :
    bracedPart line = some line := by
  obtain ⟨rest, rfl⟩ := List.head?_eq_some_iff.mp hhead
  obtain ⟨front, hfront⟩ := List.getLast?_eq_some_iff.mp hlast
  have hdrop : ('\x7b' :: rest).dropWhile (· ≠ '\x7b') = '\x7b' :: rest := rfl
  rw [bracedPart, hdrop, hfront, trimEndMatches, List.reverse_append]
  simp

theorem head?_dropWhile_ne (h : line.dropWhile (· ≠ c) ≠ []) :
    (line.dropWhile (· ≠ c)).head? = some c := by
  have hnot := List.head?_dropWhile_not (· ≠ c) line
  cases hhead : (line.dropWhile (· ≠ c)).head? with
  | none => exact absurd (List.head?_eq_none_iff.mp hhead) h
  | some d =>
    rw [hhead] at hnot
    simpa using hnot

theorem bracedPart_eq_some : bracedPart line = some part ↔ Braced line part := by
  constructor
  · intro h
    simp only [bracedPart, Option.ite_none_left_eq_some, Option.some.injEq] at h
    obtain ⟨hne, rfl⟩ := h
    have hrest := List.takeWhile_append_dropWhile (p := (· ≠ '\x7d'))
      (l := (line.dropWhile (· ≠ '\x7b')).reverse)
    rw [← List.reverse_inj, List.reverse_append, List.reverse_reverse] at hrest
    have hline := List.takeWhile_append_dropWhile (p := (· ≠ '\x7b')) (l := line)
    rw [← hrest, ← List.append_assoc] at hline
    refine ⟨_, _, hline.symm, fun h => by simpa using List.mem_takeWhile_imp h,
      fun h => by simpa using List.mem_takeWhile_imp (List.mem_reverse.mp h), ?_, ?_⟩
    · rw [← List.head?_append_of_ne_nil _ hne, trimEndMatches, hrest]
      exact head?_dropWhile_ne fun hnil => hne (by rw [hnil]; rfl)
    · rw [trimEndMatches, List.getLast?_reverse]
      exact head?_dropWhile_ne fun hnil => hne (by rw [trimEndMatches, hnil]; rfl)
  · rintro ⟨front, back, rfl, hfront, hback, hhead, hlast⟩
    rw [bracedPart_padded hfront hback, bracedPart_self hhead hlast]

theorem lineAnswer_eq : lineAnswer fromStr line = (bracedPart line).bind fromStr := by
  obtain ⟨front, back, hline, hfront, hback⟩ := exists_trimMatches isWhitespace line
  have hbraced : bracedPart line = bracedPart (trimMatches isWhitespace line) := by
    conv_lhs => rw [hline]
    exact bracedPart_padded (fun h => absurd (hfront _ h) (by decide)) fun h =>
      absurd (hback _ h) (by decide)
  rw [lineAnswer, hbraced]
  split
  · next h =>
    rw [bracedPart_self h.1 h.2, Option.bind_some, Option.or_self]
  · rfl

theorem lineAnswer_eq_some : lineAnswer fromStr line = some r ↔ LineDenotes fromStr line r := by
  simp only [lineAnswer_eq, Option.bind_eq_some_iff, bracedPart_eq_some, LineDenotes]

theorem lineAnswer_eq_none :
    lineAnswer fromStr line = none ↔ ∀ r, ¬ LineDenotes fromStr line r := by
  simp only [← lineAnswer_eq_some, Option.eq_none_iff_forall_ne_some, ne_eq]

theorem linesAnswer_eq_some :
    linesAnswer fromStr json = some r ↔ LastLineDenotes fromStr json r := by
  simp only [linesAnswer, List.findSome?_eq_some_iff, lineAnswer_eq_some, lineAnswer_eq_none]
  constructor
  · rintro ⟨back, line, front, hlines, hline, hback⟩
    refine ⟨front.reverse, line, back.reverse, ?_, hline, fun l hl =>
      hback l (List.mem_reverse.mp hl)⟩
    simpa using List.reverse_eq_iff.mp hlines
  · rintro ⟨front, line, back, hlines, hline, hback⟩
    exact ⟨back.reverse, line, front.reverse, by simp [hlines], hline,
      fun l hl => hback l (List.mem_reverse.mp hl)⟩

theorem linesAnswer_eq_none :
    linesAnswer fromStr json = none ↔ ∀ line ∈ lines json, ∀ r, ¬ LineDenotes fromStr line r := by
  rw [linesAnswer, List.findSome?_eq_none_iff]
  simp only [List.mem_reverse, lineAnswer_eq_none]

/-- The answers of the lines are those of the JSON text. -/
theorem linesAnswer_behind (hopen : '\x7b' ∉ noise) :
    linesAnswer fromStr (noise ++ '\n' :: json) = linesAnswer fromStr json := by
  have hnone : ((noise.splitOn '\n').map stripReturn).reverse.findSome? (lineAnswer fromStr) =
      none := by
    rw [List.findSome?_eq_none_iff]
    intro line hline
    have hline : '\x7b' ∉ line := fun h =>
      hopen (subset_of_mem_splitOn (List.mem_reverse.mp hline) h)
    rw [lineAnswer_eq, bracedPart, List.dropWhile_eq_nil_iff.mpr fun c hc =>
      decide_eq_true (ne_of_mem_of_not_mem hc hline)]
    rfl
  rw [linesAnswer, lines_append_cons, List.reverse_append, List.findSome?_append, hnone,
    Option.or_none]
  rfl

end Lines

/-! ### What the scan finds -/

theorem Scan.run_append (s : Scan) (a b : List Char) :
    s.run (a ++ b) = (s.run a).run b := List.foldl_append

section
variable {text part front back : List Char} {depth : Nat} {start last : Option (List Char)}
  {stray : Bool}

theorem StringBody.run (h : StringBody text) :
    Scan.run ⟨depth, start, true, false, last⟩ text = ⟨depth, start.map (· ++ text), true,
      false, last⟩ := by
  induction h generalizing start with
  | nil => simp [Scan.run]
  | plain hquote hescape => simp [Scan.run, Scan.step, hquote, hescape]
  | escaped c => cases start <;> simp [Scan.run, Scan.step]
  | append _ _ ihs iht =>
    rw [Scan.run_append, ihs, iht]
    cases start <;> simp

theorem Scan.run_around (s : Scan) (c d : Char) (text : List Char) :
    s.run (c :: text ++ [d]) = ((s.step c).run text).step d := by
  simp [Scan.run]

theorem StringBody.run_string (h : StringBody text) :
    Scan.run ⟨depth, start, false, false, last⟩ ('\x22' :: text ++ ['\x22']) =
      ⟨depth, start.map (· ++ ('\x22' :: text ++ ['\x22'])), false, false, last⟩ := by
  have hopen : Scan.step ⟨depth, start, false, false, last⟩ '\x22' =
    ⟨depth, start.map (· ++ ['\x22']), true, false, last⟩ := rfl
  rw [Scan.run_around, hopen, h.run]
  cases start <;> simp [Scan.step]

theorem Closed.run_inside (h : Closed stray text) (hstray : stray = false) :
    Scan.run ⟨depth + 1, start, false, false, last⟩ text =
      ⟨depth + 1, start.map (· ++ text), false, false, last⟩ := by
  induction h generalizing depth start with
  | nil => simp [Scan.run]
  | @plain _ c hquote hopen hclose =>
    have hclose : c ≠ '\x7d' := fun hc => by simp [hclose hc] at hstray
    simp [Scan.run, Scan.step, hquote, hopen, hclose]
  | string hs => exact hs.run_string
  | object _ ih =>
    have hopen : Scan.step ⟨depth + 1, start, false, false, last⟩ '\x7b' =
      ⟨depth + 1 + 1, start.map (· ++ ['\x7b']), false, false, last⟩ := by simp [Scan.step]
    rw [Scan.run_around, hopen, ih rfl]
    cases start <;> simp [Scan.step]
  | append _ _ ihs iht =>
    rw [Scan.run_append, ihs hstray, iht hstray]
    cases start <;> simp

theorem ObjectText.run (h : ObjectText part) : Scan.run { last } part = { last := some part } := by
  obtain ⟨s, hs, rfl⟩ := h
  have hopen : Scan.step { last } '\x7b' = ⟨0 + 1, some ['\x7b'], false, false, last⟩ := rfl
  rw [Scan.run_around, hopen, hs.run_inside rfl]
  simp [Scan.step]

theorem Closed.run (h : Closed stray text) :
    ∃ last', Scan.run { last } text = { last := last' } := by
  induction h generalizing last with
  | nil => exact ⟨last, rfl⟩
  | plain hquote hopen => exact ⟨last, by simp [Scan.run, Scan.step, hquote, hopen]⟩
  | string hs => exact ⟨last, hs.run_string⟩
  | object hs => exact ⟨_, ObjectText.run ⟨_, hs, rfl⟩⟩
  | append _ _ ihs iht =>
    rw [Scan.run_append, ihs.choose_spec]
    exact iht

/-- Objects found before only stand in for one that is not found. -/
theorem Scan.run_last (s : Scan) (l : Option (List Char)) :
    Scan.run { s with last := s.last.or l } text =
      { s.run text with last := (s.run text).last.or l } := by
  induction text generalizing s with
  | nil => rfl
  | cons c text ih =>
    have hstep : Scan.step { s with last := s.last.or l } c =
        { s.step c with last := (s.step c).last.or l } := by
      simp only [Scan.step]
      split_ifs <;> simp [Option.or_assoc]
    rw [Scan.run, List.foldl_cons, hstep]
    exact ih _

theorem lastBalanced_append (hfront : Closed true front) (hpart : ObjectText part) :
    lastBalancedJsonObject (front ++ part ++ back) =
      (lastBalancedJsonObject back).or (some part) := by
  obtain ⟨last', hrun⟩ : ∃ last', Scan.run {} front = { last := last' } := hfront.run
  rw [lastBalancedJsonObject, Scan.run_append, Scan.run_append, hrun, hpart.run]
  exact congrArg Scan.last (Scan.run_last {} (some part))

/-! ### What has been read -/

/-- The text with its open braces: everything between them is closed. -/
inductive Opened : Nat → List Char → Prop
  | closed {t : List Char} (ht : Closed true t) : Opened 0 t
  | brace {depth : Nat} {t u : List Char} (ht : Opened depth t) (hu : Closed false u) :
    Opened (depth + 1) (t ++ '\x7b' :: u)

theorem Opened.append (h : Opened depth text) (hpart : ∀ stray, Closed stray part) :
    Opened depth (text ++ part) := by
  cases h with
  | closed ht => exact .closed (ht.append (hpart true))
  | brace ht hu =>
    rw [List.append_assoc, List.cons_append]
    exact .brace ht (hu.append (hpart false))

/-- A closing brace ends the object that was opened last. -/
theorem Opened.close (h : Opened (depth + 1) text) :
    Opened depth (text ++ ['\x7d']) ∧ (depth = 0 → HasObject (text ++ ['\x7d'])) := by
  cases h with
  | @brace _ t u ht hu =>
    have htext : t ++ '\x7b' :: u ++ ['\x7d'] = t ++ ('\x7b' :: u ++ ['\x7d']) := by simp
    rw [htext]
    refine ⟨ht.append fun _ => .object hu, ?_⟩
    rintro rfl
    cases ht with
    | closed ht => exact ⟨t, _, [], by simp, ht, u, hu, rfl⟩

/-- What the scan knows of the text it has read. -/
structure Reads (text : List Char) (s : Scan) : Prop where
  outside : s.inString = false → s.escaped = false ∧ Opened s.depth text
  inside : s.inString = true → ∃ front body, Opened s.depth front ∧ StringBody body ∧
    text = front ++ '\x22' :: body ++ if s.escaped then ['\\'] else []
  found : s.last ≠ none → HasObject text

theorem HasObject.append (h : HasObject text) (back : List Char) : HasObject (text ++ back) := by
  obtain ⟨front, part, rest, rfl, hfront, hpart⟩ := h
  exact ⟨front, part, rest ++ back, by simp, hfront, hpart⟩

/-- A character inside a string continues it or ends it. -/
theorem Reads.step_inside (h : Reads text s) (hin : s.inString = true) (c : Char) :
    Reads (text ++ [c]) (s.step c) := by
  obtain ⟨depth, start, inString, escaped, last⟩ := s
  cases hin
  obtain ⟨front, body, hfront, hbody, htext⟩ := h.inside rfl
  have hfound : last ≠ none → HasObject (text ++ [c]) := fun hl => (h.found hl).append _
  simp only at hfront htext
  cases escaped with
  | true =>
    refine ⟨nofun, fun _ => ⟨front, body ++ ['\\', c], hfront, hbody.append (.escaped c),
      ?_⟩, hfound⟩
    simp [htext, Scan.step]
  | false =>
    simp only [Scan.step, if_true, Bool.false_eq_true, if_false] at htext ⊢
    split_ifs with hescape hquote
    · exact ⟨nofun, fun _ => ⟨front, body, hfront, hbody, by simp [htext, hescape]⟩, hfound⟩
    · refine ⟨fun _ => ⟨rfl, ?_⟩, nofun, hfound⟩
      have happend : text ++ [c] = front ++ ('\x22' :: body ++ ['\x22']) := by
        simp [htext, hquote]
      rw [happend]
      exact hfront.append fun _ => .string hbody
    · exact ⟨nofun, fun _ => ⟨front, body ++ [c], hfront, hbody.append (.plain hquote hescape),
        by simp [htext]⟩, hfound⟩

/-- A character outside of strings opens one, moves the depth by a brace, or leaves both. -/
theorem Reads.step_outside (h : Reads text s) (hout : s.inString = false) (c : Char) :
    Reads (text ++ [c]) (s.step c) := by
  obtain ⟨depth, start, inString, escaped, last⟩ := s
  cases hout
  obtain ⟨rfl, hopened⟩ := h.outside rfl
  have hfound : last ≠ none → HasObject (text ++ [c]) := fun hl => (h.found hl).append _
  by_cases hquote : c = '\x22'
  · subst hquote
    exact ⟨nofun, fun _ => ⟨text, [], hopened, .nil, by simp [Scan.step]⟩, hfound⟩
  by_cases hopen : c = '\x7b'
  · subst hopen
    exact ⟨fun _ => ⟨rfl, .brace hopened .nil⟩, nofun, hfound⟩
  by_cases hclose : c = '\x7d'
  · subst hclose
    cases depth with
    | zero =>
      refine ⟨fun _ => ⟨rfl, ?_⟩, nofun, hfound⟩
      cases hopened with
      | closed ht => exact .closed (ht.append (.plain (by decide) (by decide) fun _ => rfl))
    | succ depth =>
      obtain ⟨hclosed, hobject⟩ := hopened.close
      cases depth with
      | zero => exact ⟨fun _ => ⟨rfl, hclosed⟩, nofun, fun _ => hobject rfl⟩
      | succ depth => exact ⟨fun _ => ⟨rfl, hclosed⟩, nofun, hfound⟩
  · have hstep : Scan.step ⟨depth, start, false, false, last⟩ c =
        ⟨depth, start.map (· ++ [c]), false, false, last⟩ := by
          simp [Scan.step, hquote, hopen, hclose]
    rw [hstep]
    exact ⟨fun _ => ⟨rfl, hopened.append fun _ => .plain hquote hopen fun h => (hclose h).elim⟩,
      nofun, hfound⟩

theorem Reads.step (h : Reads text s) (c : Char) : Reads (text ++ [c]) (s.step c) := by
  cases hin : s.inString with
  | true => exact h.step_inside hin c
  | false => exact h.step_outside hin c

theorem Reads.run (h : Reads text s) (more : List Char) : Reads (text ++ more) (s.run more) := by
  induction more generalizing text s with
  | nil => rwa [List.append_nil]
  | cons c more ih =>
    have hmore := ih (h.step c)
    rwa [List.append_assoc] at hmore

theorem reads_run (text : List Char) : Reads text (Scan.run {} text) := by
  have hstart : Reads [] {} := ⟨fun _ => ⟨rfl, .closed .nil⟩, nofun, fun h => (h rfl).elim⟩
  exact hstart.run text

theorem lastBalanced_eq_none : lastBalancedJsonObject text = none ↔ ¬ HasObject text := by
  refine ⟨?_, fun h => by_contra fun hsome => h ((reads_run text).found hsome)⟩
  rintro hnone ⟨front, part, back, rfl, hfront, hpart⟩
  rw [lastBalanced_append hfront hpart] at hnone
  simp at hnone

/-- The scan finds the last object. -/
theorem lastBalanced_eq_some : lastBalancedJsonObject text = some part ↔ LastObject text part := by
  constructor
  · intro h
    obtain ⟨n, hn⟩ : ∃ n, text.length < n := ⟨_, Nat.lt_succ_self _⟩
    -- The objects are taken off the front, one by one.
    induction n generalizing text with
    | zero => omega
    | succ n ih =>
      have hsome : lastBalancedJsonObject text ≠ none := h ▸ Option.some_ne_none part
      obtain ⟨front, first, back, rfl, hfront, hfirst⟩ := (reads_run text).found hsome
      rw [lastBalanced_append hfront hfirst, Option.or_eq_some_iff] at h
      rcases h with hback | ⟨hback, hpart⟩
      · obtain ⟨s, hs, rfl⟩ := hfirst
        obtain ⟨front', back', rfl, hfront', hpart, hnone⟩ := ih hback (by simp at hn; omega)
        exact ⟨_, back', by simp, (hfront.append (.object hs)).append hfront', hpart, hnone⟩
      · cases hpart
        exact ⟨front, back, rfl, hfront, hfirst, lastBalanced_eq_none.mp hback⟩
  · rintro ⟨front, back, rfl, hfront, hpart, hback⟩
    rw [lastBalanced_append hfront hpart, lastBalanced_eq_none.mpr hback]
    rfl

end

section Noise
variable {noise json text : List Char}

theorem not_hasObject (htext : '\x7b' ∉ text) : ¬ HasObject text := by
  rintro ⟨front, _, back, rfl, -, s, -, rfl⟩
  simp at htext

theorem closed_whitespace (h : ∀ c ∈ text, isJsonWhitespace c = true) : Closed true text := by
  induction text with
  | nil => exact .nil
  | cons c text ih =>
    refine .append (s := [c]) (.plain ?_ ?_ fun _ => rfl) (ih fun d hd =>
      h d (List.mem_cons_of_mem c hd))
    all_goals
      rintro rfl
      cases h _ List.mem_cons_self

theorem Scan.run_plain (htext : ∀ c ∈ text, c ≠ '\x22' ∧ c ≠ '\x7b') : Scan.run {} text = {} := by
  induction text with
  | nil => rfl
  | cons c text ih =>
    obtain ⟨hquote, hopen⟩ := htext c List.mem_cons_self
    have hstep : Scan.step {} c = {} := by simp [Scan.step, hquote, hopen]
    rw [Scan.run, List.foldl_cons, hstep]
    exact ih fun d hd => htext d (List.mem_cons_of_mem c hd)

/-- What is trimmed in front is nothing to the scan. -/
theorem lastBalanced_normalize :
    lastBalancedJsonObject (normalize noise ++ '\n' :: json) =
      lastBalancedJsonObject (noise ++ '\n' :: json) := by
  have hdrop : ∀ {p : Char → Bool} {t : List Char}, p '\x22' = false → p '\x7b' = false →
      Scan.run {} (t.dropWhile p) = Scan.run {} t := by
    intro p t hquote hopen
    have hfront : Scan.run {} (t.takeWhile p) = {} := Scan.run_plain fun c hc =>
      ⟨fun h => by simp [h ▸ List.mem_takeWhile_imp hc] at hquote,
        fun h => by simp [h ▸ List.mem_takeWhile_imp hc] at hopen⟩
    conv_rhs => rw [← @List.takeWhile_append_dropWhile _ p t, Scan.run_append, hfront]
  rw [lastBalancedJsonObject, lastBalancedJsonObject, Scan.run_append, Scan.run_append, normalize,
    hdrop rfl rfl, hdrop rfl rfl]

end Noise

/-! ## Readers of finitely many texts -/

section Table
variable {table : List (List Char × LlmAdapterResponse)} {text front : List Char}
  {r : LlmAdapterResponse}

/-- A text a table can hold: an object, or an array on one line. -/
structure Row (text : List Char) : Prop where
  trimmed : trimMatches isJsonWhitespace text = text
  kind : ObjectText text ∨ text.head? = some '[' ∧ '\n' ∉ text

def tableRead (table : List (List Char × LlmAdapterResponse)) (text : List Char) :
    Option LlmAdapterResponse :=
  table.lookup (trimMatches isJsonWhitespace text)

theorem mem_of_tableRead (h : tableRead table text = some r) :
    (trimMatches isJsonWhitespace text, r) ∈ table := by
  obtain ⟨before, after, rfl, -⟩ := List.lookup_eq_some_iff.mp h
  simp

/-- A text of the table does not start with a brace-free line: an object starts with a brace, and an
array has no second line. -/
theorem tableRead_behind (htable : ∀ row ∈ table, Row row.1) (hopen : '\x7b' ∉ front)
    (hfront : ∃ c ∈ front, isJsonWhitespace c = false) (hread : tableRead table text = some r) :
    tableRead table (front ++ '\n' :: text) = none := by
  have hleft : front.dropWhile isJsonWhitespace ≠ [] := by
    obtain ⟨c, hc, hspace⟩ := hfront
    intro hnil
    exact Bool.false_ne_true (hspace.symm.trans (List.dropWhile_eq_nil_iff.mp hnil c hc))
  have hright : text.reverse.dropWhile isJsonWhitespace ≠ [] := by
    intro hnil
    have hblank : trimMatches isJsonWhitespace text = [] := by
      have hall : ∀ c ∈ text, isJsonWhitespace c = true := fun c hc =>
        List.dropWhile_eq_nil_iff.mp hnil c (List.mem_reverse.mpr hc)
      rw [trimMatches, List.dropWhile_eq_nil_iff.mpr hall]
      rfl
    have hrow := (htable _ (mem_of_tableRead hread)).kind
    rw [hblank] at hrow
    rcases hrow with ⟨s, -, hs⟩ | harray
    · cases hs
    · cases harray.1
  have htrimmed : trimMatches isJsonWhitespace (front ++ '\n' :: text) =
      front.dropWhile isJsonWhitespace ++ '\n' ::
        (text.reverse.dropWhile isJsonWhitespace).reverse := by
    rw [trimMatches, dropWhile_append_of_ne_nil hleft, List.reverse_append, List.reverse_cons,
      List.append_assoc, dropWhile_append_of_ne_nil hright]
    simp
  by_contra hsome
  obtain ⟨r', hread'⟩ := Option.ne_none_iff_exists'.mp hsome
  have hrow := (htable _ (mem_of_tableRead hread')).kind
  rw [htrimmed] at hrow
  rcases hrow with hobject | ⟨-, hline⟩
  · have hhead := hobject.head
    rw [List.head?_append_of_ne_nil _ hleft] at hhead
    exact hopen ((List.dropWhile_suffix _).subset (List.mem_of_mem_head? hhead))
  · exact hline (List.mem_append_right _ List.mem_cons_self)

/-- A reader that accepts the texts of a table, with whitespace around them. -/
def tableReader (table : List (List Char × LlmAdapterResponse))
    (htable : ∀ row ∈ table, Row row.1) : ResponseReader where
  fromStr := tableRead table
  fromStr_padded := by
    intro front text back r hfront hback hread
    rw [tableRead, trimMatches_padded hfront hback]
    exact hread
  exists_text := by
    intro text r hread
    have hrow := htable _ (mem_of_tableRead hread)
    obtain ⟨front, back, htext, hfront, hback⟩ := exists_trimMatches isJsonWhitespace text
    refine ⟨front, _, back, htext, hfront, hback, ?_, hrow.kind.imp id And.left⟩
    rw [tableRead, hrow.trimmed]
    exact hread
  fromStr_behind := fun hbraces hfront =>
    tableRead_behind htable (fun h => (hbraces _ h).1 rfl) hfront

end Table

/-- An answer with its draft in a field of no meaning, over three lines. -/
def sampleNested : List Char :=
  "\x7b\"output_text\":\"answer\",\n\"raw\":\x7b\"output_text\":\"draft\"\x7d\n\x7d".toList

def sampleDraft : List Char := "\x7b\"output_text\":\"draft\"\x7d".toList

/-- The same answer with nothing nested in it. -/
def samplePlain : List Char := "\x7b\n  \"output_text\": \"answer\"\n\x7d".toList

def sampleArray : List Char := "[\"answer\"]".toList

def sampleTable : List (List Char × LlmAdapterResponse) :=
  [(sampleNested, { outputText := "answer" }), (sampleDraft, { outputText := "draft" }),
    (samplePlain, { outputText := "answer" }), (sampleArray, { outputText := "answer" })]

theorem sampleTable_rows : ∀ row ∈ sampleTable, Row row.1 := by
  have hobject : ∀ text ∈ [sampleNested, sampleDraft, samplePlain], Row text := by
    intro text htext
    have hself : trimMatches isJsonWhitespace text = text ∧
        lastBalancedJsonObject text = some text := by
      revert text
      decide +kernel
    obtain ⟨_, _, -, -, hobject, -⟩ := lastBalanced_eq_some.mp hself.2
    exact ⟨hself.1, .inl hobject⟩
  have harray : Row sampleArray := ⟨by decide, .inr ⟨by decide, by decide⟩⟩
  simp only [sampleTable, List.forall_mem_cons, List.not_mem_nil, false_imp_iff, implies_true,
    and_true]
  exact ⟨hobject _ (by simp), hobject _ (by simp), hobject _ (by simp), harray⟩

def sampleReader : ResponseReader := tableReader sampleTable sampleTable_rows

/-! ## The answer -/

section Answer
variable {reader : ResponseReader} {noise json front body back : List Char} {r : LlmAdapterResponse}

theorem ResponseReader.exists_object (hread : reader.fromStr json = some r)
    (hobject : IsObject json) :
    ∃ front body back, json = front ++ body ++ back ∧ (∀ c ∈ front, isJsonWhitespace c = true) ∧
      (∀ c ∈ back, isJsonWhitespace c = true) ∧ ObjectText body ∧ reader.fromStr body = some r := by
  obtain ⟨front, body, back, rfl, hfront, hback, hbody, htext | harray⟩ := reader.exists_text hread
  · exact ⟨front, body, back, rfl, hfront, hback, htext, hbody⟩
  · obtain ⟨rest, rfl⟩ := List.head?_eq_some_iff.mp harray
    rw [IsObject, List.append_assoc, dropWhile_append_of_all hfront] at hobject
    cases hobject

/-- Behind noise that closes its strings an object is the last one. -/
theorem ResponseReader.lastObject (hread : reader.fromStr json = some r) (hobject : IsObject json)
    (hclosed : Closed true noise) :
    ∃ part, LastObject (noise ++ '\n' :: json) part ∧ reader.fromStr part = some r := by
  obtain ⟨front, body, back, rfl, hfront, hback, hbody, hr⟩ := reader.exists_object hread hobject
  refine ⟨body, ⟨noise ++ ('\n' :: front), back, by simp, ?_, hbody, ?_⟩, hr⟩
  · exact hclosed.append (closed_whitespace (List.forall_mem_cons.mpr ⟨rfl, hfront⟩))
  · exact not_hasObject fun h => absurd (hback _ h) (by decide)

/-- An object on one line is what the braces of this line hold. -/
theorem ResponseReader.lastLineDenotes (hread : reader.fromStr json = some r)
    (hobject : IsObject json) (hline : '\n' ∉ json) : LastLineDenotes reader.fromStr json r := by
  have hne : json ≠ [] := by
    rintro rfl
    cases hobject
  have hlines := lines_append (.inl rfl) hline hne
  obtain ⟨front, _, back, rfl, hfront, hback, ⟨s, -, rfl⟩, hr⟩ := reader.exists_object hread hobject
  refine ⟨[], _, [], hlines, ⟨_, ⟨front, back, rfl, ?_, ?_, rfl, List.getLast?_concat⟩, hr⟩, nofun⟩
  · exact fun h => absurd (hfront _ h) (by decide)
  · exact fun h => absurd (hback _ h) (by decide)

theorem ResponseReader.fromStr_blank (hread : reader.fromStr json = some r) (hblank : Blank noise) :
    reader.fromStr (normalize (noise ++ '\n' :: json)) = some r := by
  by_cases hspace : noise.dropWhile isWhitespace = []
  · obtain ⟨front, body, back, rfl, hfront, hback, hbody, htext⟩ := reader.exists_text hread
    obtain ⟨c, rest, rfl, hbracket⟩ : ∃ c rest, body = c :: rest ∧ c ∈ ['\x7b', '['] := by
      rcases htext with hobject | harray
      · obtain ⟨rest, rfl⟩ := List.head?_eq_some_iff.mp hobject.head
        exact ⟨_, rest, rfl, by decide⟩
      · obtain ⟨rest, rfl⟩ := List.head?_eq_some_iff.mp harray
        exact ⟨_, rest, rfl, by decide⟩
    have hspaces : ∀ d ∈ noise ++ '\n' :: front, isWhitespace d = true :=
      List.forall_mem_append.mpr ⟨List.dropWhile_eq_nil_iff.mp hspace,
        List.forall_mem_cons.mpr ⟨rfl, fun d hd => isWhitespace_of_json (hfront d hd)⟩⟩
    have hstays : ∀ c ∈ ['\x7b', '['],
        isWhitespace c = false ∧ isInvisibleReceiptFiller c = false := by decide
    have happend : noise ++ '\n' :: (front ++ (c :: rest) ++ back) =
        (noise ++ '\n' :: front) ++ c :: (rest ++ back) := by simp
    rw [happend, normalize_spaces hspaces (hstays c hbracket).1 (hstays c hbracket).2]
    exact reader.fromStr_padded (List.forall_mem_nil _) hback hbody
  · have happend : normalize noise ++ '\n' :: json = (normalize noise ++ ['\n']) ++ json ++ [] := by
      simp
    rw [normalize_behind hspace, happend]
    refine reader.fromStr_padded (fun c hc => ?_) nofun hread
    rcases List.mem_append.mp hc with hc | hc
    · exact blank_iff.mp hblank c hc
    · rw [List.mem_singleton.mp hc]
      rfl

/-- The answer behind noise: where the noise is blank the whole text is accepted. Otherwise the last
line that denotes a response decides and, where no line does, the last object of the text. An object
on one line is always found, and one over several lines where no line denotes a response and the
noise closes its strings. -/
theorem answer_behind_noise_iff (reader : ResponseReader) {noise json : List Char}
    {r : LlmAdapterResponse} (hnoise : Noise noise) (hjson : Printable json)
    (hread : reader.fromStr json = some r) :
    (parseResponseWithStandardRules reader.fromStr (noise ++ '\n' :: json) = .ok r ↔
      Blank noise ∨ LastLineDenotes reader.fromStr json r ∨
        (∀ line ∈ lines json, ∀ r, ¬ LineDenotes reader.fromStr line r) ∧
          ∃ part, LastObject (noise ++ '\n' :: json) part ∧ reader.fromStr part = some r) ∧
    (IsObject json → '\n' ∉ json ∨ Closed true noise ∧
        (∀ line ∈ lines json, ∀ r, ¬ LineDenotes reader.fromStr line r) →
      parseResponseWithStandardRules reader.fromStr (noise ++ '\n' :: json) = .ok r) := by
  rw [and_iff_left_of_imp fun hiff hobject hcase => hiff.mpr (.inr (hcase.imp
    (reader.lastLineDenotes hread hobject) fun ⟨hclosed, hnone⟩ =>
      ⟨hnone, reader.lastObject hread hobject hclosed⟩))]
  have hstrip := stripTerminalControlSequences_eq_self (hnoise.printable_append hjson)
  by_cases hblank : Blank noise
  · refine iff_of_true ?_ (.inl hblank)
    rw [parseResponseWithStandardRules, hstrip, reader.fromStr_blank hread hblank]
  · have hopen : '\x7b' ∉ noise := fun h => (hnoise _ h).1 rfl
    have hspace : noise.dropWhile isWhitespace ≠ [] := by
      intro hnil
      exact hblank (blank_iff.mpr fun c hc => by rw [normalize, hnil] at hc; cases hc)
    have hwhole : reader.fromStr (normalize noise ++ '\n' :: json) = none := by
      refine reader.fromStr_behind (fun c hc => ?_) ?_ hread
      · exact ⟨(hnoise c (normalize_subset hc)).1, (hnoise c (normalize_subset hc)).2.1⟩
      · simpa [blank_iff] using hblank
    simp only [parseResponseWithStandardRules, hstrip, normalize_behind hspace, hwhole,
      linesAnswer_behind fun h => hopen (normalize_subset h), or_iff_right hblank,
      ← linesAnswer_eq_some, ← linesAnswer_eq_none, lastBalanced_normalize, ← lastBalanced_eq_some,
      ← Option.bind_eq_some_iff]
    cases linesAnswer reader.fromStr json with
    | some found => simp
    | none =>
      generalize Option.bind _ reader.fromStr = found
      cases found with
      | some found => simp
      | none =>
        simp only [reduceCtorEq, and_false, or_false, iff_false]
        split <;> exact nofun

theorem sample_answer_behind_noise :
    parseResponseWithStandardRules sampleReader.fromStr
      ("model \"m1\" loaded".toList ++ '\n' :: samplePlain) = .ok { outputText := "answer" } := by
  refine (answer_behind_noise_iff sampleReader (by decide) (by decide) (by decide)).1.mpr
    (.inr (.inr ⟨linesAnswer_eq_none.mp (by decide), ?_⟩))
  exact ⟨samplePlain, lastBalanced_eq_some.mp (by decide +kernel), by decide⟩

/-- Behind one word of noise the draft nested in the answer is returned in its place and the array
is not found; behind an open quote the object is not found. -/
theorem nested_array_or_quoted_answer_missed :
    parseResponseWithStandardRules sampleReader.fromStr ("ready".toList ++ '\n' :: sampleNested) =
        .ok { outputText := "draft" } ∧
      parseResponseWithStandardRules sampleReader.fromStr ("ready".toList ++ '\n' :: sampleArray) =
        .error "no-json-line" ∧
      parseResponseWithStandardRules sampleReader.fromStr
        ("12\" screen".toList ++ '\n' :: samplePlain) = .error "no-json-line" ∧
      [sampleNested, sampleArray, samplePlain].map sampleReader.fromStr =
        List.replicate 3 (some { outputText := "answer" }) ∧
      Noise "ready".toList ∧ Noise "12\" screen".toList ∧
      ∀ json ∈ [sampleNested, sampleArray, samplePlain], Printable json := by
  decide

end Answer
end Trillionnium.WorkerAgent
