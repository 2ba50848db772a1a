import Trillionnium.Lib.Checked

/-!
# Fixed layouts

A byte string made of fields of known widths, and integers in such fields. A layout reads back what
was written field by field and accepts nothing else (`cut_eq_some`).
-/

namespace Lib

namespace Bytes

/-- The consecutive fields of the given widths, when they make up the whole string. -/
def cut : List Nat → Bytes → Option (List Bytes)
  | [], [] => some []
  | [], _ :: _ => none
  | w :: ws, bs => if w ≤ bs.length then (cut ws (bs.drop w)).map (bs.take w :: ·) else none

theorem cut_eq_some : cut ws bs = some fs ↔ fs.map List.length = ws ∧ fs.flatten = bs := by
  induction ws generalizing bs fs with
  | nil =>
    cases bs with
    | nil => cases fs <;> simp [cut]
    | cons b bs =>
      simp only [cut, reduceCtorEq, List.map_eq_nil_iff, false_iff, not_and]
      rintro rfl
      simp
  | cons w ws ih =>
    rw [cut]
    split
    · next hw =>
      simp only [Option.map_eq_some_iff, ih]
      constructor
      · rintro ⟨rest, ⟨rfl, hrest⟩, rfl⟩
        exact ⟨by simp [hw], by simp [hrest]⟩
      · rintro ⟨hlens, rfl⟩
        obtain _ | ⟨f, rest⟩ := fs
        · cases hlens
        · simp only [List.map_cons, List.cons.injEq] at hlens
          obtain ⟨rfl, rfl⟩ := hlens
          exact ⟨rest, ⟨rfl, by simp⟩, by simp⟩
    · next hw =>
      simp only [reduceCtorEq, false_iff, not_and]
      rintro hlens rfl
      obtain _ | ⟨f, rest⟩ := fs
      · cases hlens
      · simp only [List.map_cons, List.cons.injEq] at hlens
        simp [← hlens.1] at hw

theorem cut_flatten (h : fs.map List.length = ws) :
    cut ws fs.flatten = some fs := cut_eq_some.mpr ⟨h, rfl⟩

/-! ## Integer fields -/

section
variable {w k : Nat} {x : BitVec w} {bs : Bytes}

/-- A word in `k` bytes, most significant first. -/
def be (k : Nat) (x : BitVec w) : Bytes := ofNatBE k x.toNat

def readBE (w : Nat) (bs : Bytes) : BitVec w := BitVec.ofNat w (toNatBE bs)

@[simp] theorem length_be : (be k x).length = k := length_ofNatBE ..

theorem pow_eq (hw : w = 8 * k) : 256 ^ k = 2 ^ w := by
  rw [hw, Nat.pow_mul]

theorem readBE_be (hw : w = 8 * k) : readBE w (be k x) = x := by
  apply BitVec.eq_of_toNat_eq
  rw [readBE, be, toNatBE_ofNatBE (pow_eq hw ▸ x.isLt), BitVec.toNat_ofNat, Nat.mod_eq_of_lt x.isLt]

theorem be_readBE (hw : w = 8 * k) (h : bs.length = k) : be k (readBE w bs) = bs := by
  have hlt := toNatBE_lt bs
  rw [h, pow_eq hw] at hlt
  rw [be, readBE, BitVec.toNat_ofNat, Nat.mod_eq_of_lt hlt, ofNatBE, toNatBE, ← h,
    ← List.length_reverse, ofNat_toNat, List.reverse_reverse]

theorem be_inj (hw : w = 8 * k) (h : be k x = be k y) : x = y := by
  rw [← readBE_be (x := x) hw, h, readBE_be hw]

end

/-! ## Framed parts -/

theorem ofString_append (s t : String) : ofString (s ++ t) = ofString s ++ ofString t := by
  simp [ofString]

/-- Parts can be told apart behind their lengths, in a code of lengths of one width. -/
theorem framed_inj {code : Nat → Bytes} (hw : 0 < w) (hcode : ∀ n, (code n).length = w)
    (hinj : ∀ m < bound, ∀ n < bound, code m = code n → m = n) {ps qs : List Bytes}
    (hps : ∀ p ∈ ps, p.length < bound) (hqs : ∀ q ∈ qs, q.length < bound)
    (h : ps.flatMap (fun part => code part.length ++ part) =
      qs.flatMap fun part => code part.length ++ part) : ps = qs := by
  have hnonempty : ∀ (p : Bytes) ps,
      (p :: ps).flatMap (fun part => code part.length ++ part) ≠ [] := by
    intro p ps hnil
    have hlen := congrArg List.length hnil
    simp only [List.flatMap_cons, List.length_append, hcode, List.length_nil] at hlen
    omega
  induction ps generalizing qs with
  | nil =>
    cases qs with
    | nil => rfl
    | cons q qs => exact absurd h.symm (hnonempty q qs)
  | cons p ps ih =>
    cases qs with
    | nil => exact absurd h (hnonempty p ps)
    | cons q qs =>
      obtain ⟨hp, hps'⟩ := List.forall_mem_cons.mp hps
      obtain ⟨hq, hqs'⟩ := List.forall_mem_cons.mp hqs
      simp only [List.flatMap_cons, List.append_assoc] at h
      obtain ⟨hwidth, h⟩ := List.append_inj h (by rw [hcode, hcode])
      obtain ⟨rfl, hrest⟩ := List.append_inj h (hinj _ hp _ hq hwidth)
      rw [ih hps' hqs' hrest]

/-- Parts one after another, each behind its length, most significant byte first. -/
def framesBE (w : Nat) (parts : List Bytes) : Bytes :=
  parts.flatMap fun part => ofNatBE w part.length ++ part

theorem framesBE_inj {w : Nat} (hw : 0 < w) (hps : ∀ p ∈ ps, p.length < 256 ^ w)
    (hqs : ∀ q ∈ qs, q.length < 256 ^ w) (h : framesBE w ps = framesBE w qs) : ps = qs := by
  refine framed_inj hw (length_ofNatBE w) (fun m hm n hn heq => ?_) hps hqs h
  rw [← toNatBE_ofNatBE hm, heq, toNatBE_ofNatBE hn]

/-- Parts one after another, each behind its length, least significant byte first. -/
def frames (w : Nat) (parts : List Bytes) : Bytes :=
  parts.flatMap fun part => ofNat w part.length ++ part

theorem frames_inj {w : Nat} (hw : 0 < w) (hps : ∀ p ∈ ps, p.length < 256 ^ w)
    (hqs : ∀ q ∈ qs, q.length < 256 ^ w) (h : frames w ps = frames w qs) : ps = qs := by
  refine framed_inj hw (length_ofNat w) (fun m hm n hn heq => ?_) hps hqs h
  rw [← toNat_ofNat hm, heq, toNat_ofNat hn]

end Bytes

/-! ## Chunks -/

section
variable {α : Type} {n : Nat} {l : List α}

/-- The loop has the full chunks in one array and the unfinished one in the other. -/
theorem toChunks_go {l : List α} {chunk : Array α} {chunks : Array (List α)}
    (hsize : chunk.size ≤ n) (hn : 0 < n) :
    ∃ front, List.toChunks.go n l chunk chunks = chunks.toList ++ front ∧
      front.flatten = chunk.toList ++ l ∧ ∀ c ∈ front, c.length ≤ n := by
  induction l generalizing chunk chunks with
  | nil => exact ⟨[chunk.toList], by simp [List.toChunks.go], by simp, by simpa using hsize⟩
  | cons a l ih =>
    rw [List.toChunks.go]
    split
    · obtain ⟨front, hfront, hflatten, hlength⟩ :=
        @ih ((Array.mkEmpty n).push a) (chunks.push chunk.toList)
          (by simpa using Nat.succ_le_of_lt hn)
      exact ⟨chunk.toList :: front, by rw [hfront]; simp, by simp [hflatten],
        List.forall_mem_cons.mpr ⟨by simpa using hsize, hlength⟩⟩
    · next hfull =>
      have hsize' : (chunk.push a).size ≤ n := by
        rw [Array.size_push]
        simp only [beq_iff_eq] at hfull
        omega
      obtain ⟨front, hfront, hflatten, hlength⟩ := @ih (chunk.push a) chunks hsize'
      exact ⟨front, hfront, by simp [hflatten], hlength⟩

theorem toChunks_spec (hn : 0 < n) :
    (l.toChunks n).flatten = l ∧ ∀ c ∈ l.toChunks n, c.length ≤ n := by
  cases l with
  | nil => simp [List.toChunks]
  | cons a l =>
    obtain ⟨n, rfl⟩ := Nat.exists_eq_add_one_of_ne_zero (Nat.pos_iff_ne_zero.mp hn)
    obtain ⟨front, hfront, hflatten, hlength⟩ :=
      @toChunks_go α (n + 1) l #[a] #[] (by simp) (Nat.succ_pos n)
    have heq : (a :: l).toChunks (n + 1) = front := by simpa [List.toChunks] using hfront
    rw [heq]
    exact ⟨by simpa using hflatten, hlength⟩

end

end Lib
