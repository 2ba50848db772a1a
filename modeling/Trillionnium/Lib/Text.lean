import Trillionnium.Lib.Bytes
import Mathlib.Data.List.TakeWhile

/-!
# Text

Whitespace at the ends of a text, and the classes of ASCII bytes.
-/

namespace Lib.Text

/-- The elements of a text are tried one by one, not all characters there are. -/
instance (priority := 2000) decidableForallMem {t : List Char} {p : Char → Prop} [DecidablePred p] :
    Decidable (∀ c ∈ t, p c) := List.decidableBAll p t

/-- The characters with the Unicode property `White_Space`. -/
def isWhitespace (c : Char) : Bool :=
  let n := c.toNat
  (9 ≤ n ∧ n ≤ 13) || n = 0x20 || n = 0x85 || n = 0xA0 || n = 0x1680 ||
    (0x2000 ≤ n ∧ n ≤ 0x200A) || n = 0x2028 || n = 0x2029 || n = 0x202F || n = 0x205F || n = 0x3000

def trim (s : String) : String :=
  String.ofList ((s.toList.dropWhile isWhitespace).reverse.dropWhile isWhitespace).reverse

/-- The characters without those of a class at the two ends. -/
def trimMatches (p : Char → Bool) (t : List Char) : List Char :=
  ((t.dropWhile p).reverse.dropWhile p).reverse

def trimEndMatches (p : Char → Bool) (t : List Char) : List Char := (t.reverse.dropWhile p).reverse

section
variable {p : Char → Bool} {t : List Char}

theorem dropWhile_eq_self (h : ∀ c ∈ t, p c = false) : t.dropWhile p = t := by
  cases t with
  | nil => rfl
  | cons c t =>
    rw [List.dropWhile_cons, h c List.mem_cons_self]
    rfl

theorem trimEndMatches_eq_self (h : ∀ c ∈ t, p c = false) : trimEndMatches p t = t := by
  rw [trimEndMatches, dropWhile_eq_self fun c hc => h c (List.mem_reverse.mp hc),
    List.reverse_reverse]

theorem trimMatches_eq_self (h : ∀ c ∈ t, p c = false) : trimMatches p t = t := by
  rw [trimMatches, dropWhile_eq_self h]
  exact trimEndMatches_eq_self h

theorem dropWhile_append_of_all {front : List Char} (h : ∀ c ∈ front, p c = true) :
    (front ++ t).dropWhile p = t.dropWhile p := by
  rw [List.dropWhile_append, List.dropWhile_eq_nil_iff.mpr h]
  rfl

theorem dropWhile_append_of_ne_nil {back : List Char} (h : t.dropWhile p ≠ []) :
    (t ++ back).dropWhile p = t.dropWhile p ++ back := by
  rw [List.dropWhile_append, if_neg (by simpa using h)]

/-- What stands in front of the text that is left is of the class, and so is what stands behind
it. -/
theorem exists_trimMatches (p : Char → Bool) (t : List Char) :
    ∃ front back, t = front ++ trimMatches p t ++ back ∧
      (∀ c ∈ front, p c = true) ∧ ∀ c ∈ back, p c = true := by
  refine ⟨t.takeWhile p, ((t.dropWhile p).reverse.takeWhile p).reverse, ?_, ?_, ?_⟩
  · rw [trimMatches, List.append_assoc, ← List.reverse_append, List.takeWhile_append_dropWhile,
      List.reverse_reverse, List.takeWhile_append_dropWhile]
  · exact fun c hc => List.mem_takeWhile_imp hc
  · exact fun c hc => List.mem_takeWhile_imp (List.mem_reverse.mp hc)

/-- Characters of the class around a text are trimmed with those at its ends. -/
theorem trimMatches_padded {front back : List Char} (hfront : ∀ c ∈ front, p c = true)
    (hback : ∀ c ∈ back, p c = true) : trimMatches p (front ++ t ++ back) = trimMatches p t := by
  have hrev : ∀ c ∈ back.reverse, p c = true := fun c hc => hback c (List.mem_reverse.mp hc)
  rw [trimMatches, List.append_assoc, dropWhile_append_of_all hfront]
  by_cases hnil : t.dropWhile p = []
  · have hall : ∀ c ∈ t, p c = true := List.dropWhile_eq_nil_iff.mp hnil
    rw [dropWhile_append_of_all hall, List.dropWhile_eq_nil_iff.mpr hback, trimMatches, hnil]
  · rw [dropWhile_append_of_ne_nil hnil, List.reverse_append, dropWhile_append_of_all hrev,
      trimMatches]

theorem trimMatches_idem : trimMatches p (trimMatches p t) = trimMatches p t := by
  obtain ⟨front, back, hsplit, hfront, hback⟩ := exists_trimMatches p t
  conv_rhs => rw [hsplit, trimMatches_padded hfront hback]

end

@[simp] theorem trim_trim (s : String) : trim (trim s) = trim s := by
  have h := @trimMatches_idem isWhitespace s.toList
  simp only [trimMatches] at h
  simp only [trim, String.toList_ofList, h]

/-- What stands behind the first occurrence of a text. -/
def findAfter (pattern : List Char) : List Char → Option (List Char)
  | [] => if pattern = [] then some [] else none
  | c :: rest =>
    if pattern.isPrefixOf (c :: rest) then some ((c :: rest).drop pattern.length)
      else findAfter pattern rest

/-- A text is not found where one of its characters does not occur. -/
theorem findAfter_eq_none {pattern t : List Char} {c : Char} (hpattern : c ∈ pattern) (ht : c ∉ t) :
    findAfter pattern t = none := by
  induction t with
  | nil => exact if_neg (List.ne_nil_of_mem hpattern)
  | cons d rest ih =>
    have hno : pattern.isPrefixOf (d :: rest) = false := by
      rw [Bool.eq_false_iff, ne_eq, List.isPrefixOf_iff_prefix]
      exact fun hfront => ht (hfront.subset hpattern)
    rw [findAfter, hno, if_neg Bool.false_ne_true]
    exact ih (List.not_mem_of_not_mem_cons ht)

/-- The characters of the Unicode category `Cc`. -/
def isControl (c : Char) : Bool :=
  let n := c.toNat
  n ≤ 0x1F || (0x7F ≤ n ∧ n ≤ 0x9F)

/-- The words between whitespace. -/
def splitWhitespace (s : String) : List String :=
  ((s.toList.splitOnP isWhitespace).filter (· ≠ [])).map String.ofList

def isAsciiDigit (b : UInt8) : Bool := 0x30 ≤ b ∧ b ≤ 0x39

end Lib.Text
