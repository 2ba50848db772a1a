import Mathlib.Algebra.BigOperators.Fin
import Mathlib.Algebra.Field.ZMod
import Mathlib.Data.List.GetD
import Mathlib.Data.Matrix.Mul
import Mathlib.Tactic.Abel
import Trillionnium.Pon.Work

/-!
# The work relation computes the product

The native code never leaves its words: every step of it is the step of the oracle on unbounded
integers. Over the integers modulo `Q` the masked product less the two corrections is the product,
`(A + E) (B + F) - A F - E (B + F) = A B`.
-/

namespace Trillionnium.Pon.Work

open Lib

/-- A list of words below the modulus. -/
structure Reduced (values : List Nat) (n : Nat) : Prop where
  length : values.length = n
  lt : ∀ v ∈ values, v < Q

variable {values : List Nat}

theorem validate_eq_ok : validate values = .ok u ↔ Reduced values CELLS := by
  simp only [validate, bind_eq_ok, require_eq_ok]
  constructor
  · rintro ⟨_, hlength, hlt⟩
    exact ⟨hlength, hlt⟩
  · intro h
    exact ⟨(), h.length, h.lt⟩

theorem Reduced.validate (h : Reduced values CELLS) : validate values = .ok () :=
  validate_eq_ok.mpr h

theorem check_eq_ok : Oracle.check values = .ok u ↔ Reduced values CELLS := by
  simp only [Oracle.check, require_eq_ok]
  exact ⟨fun ⟨hlength, hlt⟩ => ⟨hlength, hlt⟩, fun h => ⟨h.length, h.lt⟩⟩

theorem reduce_eq (x : Nat) : reduce x = x % Q :=
  Nat.mod_eq_of_lt ((Nat.mod_lt x (by decide)).trans (by decide))

section
variable {values : List Nat} {n i : Nat}

theorem Reduced.getD_lt (h : Reduced values n) : values.getD i 0 < Q := by
  rw [List.getD_eq_getElem?_getD]
  cases hi : values[i]? with
  | none => decide
  | some v => exact h.lt v (List.mem_of_getElem? hi)

theorem Reduced.getElem? (h : Reduced values n) (hi : i < n) :
    values[i]? = some (values.getD i 0) := by
  rw [List.getD_eq_getElem?_getD, List.getElem?_eq_getElem (by rw [h.length]; exact hi),
    Option.getD_some]

theorem Reduced.entry (h : Reduced values n) (hi : i < n) :
    entry values i = .ok (values.getD i 0) :=
  getOr_eq_ok.mpr (h.getElem? hi)

theorem Reduced.map_mod {α : Type} {l : List α} {f : α → Nat} (hl : l.length = n) :
    Reduced (l.map fun x => f x % Q) n := by
  refine ⟨by rw [List.length_map, hl], fun v hv => ?_⟩
  obtain ⟨x, -, rfl⟩ := List.mem_map.mp hv
  exact Nat.mod_lt _ (by decide)

end

theorem length_cells (rows cols : Nat) : (cells rows cols).length = rows * cols := by simp [cells]

variable {rows cols : Nat}

theorem mem_cells (h : c ∈ cells rows cols) : c.1 < rows ∧ c.2 < cols := by
  obtain ⟨t, ht, rfl⟩ := List.mem_map.mp h
  have ht := List.mem_range.mp ht
  have hcols : 0 < cols := Nat.pos_of_ne_zero (by rintro rfl; simp at ht)
  exact ⟨Nat.div_lt_of_lt_mul (by rwa [Nat.mul_comm]), Nat.mod_lt t hcols⟩

theorem index_lt {rows cols i j : Nat} (hi : i < rows) (hj : j < cols) :
    i * cols + j < rows * cols := by
  calc i * cols + j < (i + 1) * cols := by rw [Nat.succ_mul]; omega
    _ ≤ rows * cols := Nat.mul_le_mul_right cols hi

/-! ## Sums stay within their words -/

theorem add128_eq (h : x + y < 2 ^ 128) : add128 x y = .ok (x + y) := by
  rw [add128, require, if_pos h]
  rfl

theorem mul128_eq (h : x * y < 2 ^ 128) : mul128 x y = .ok (x * y) := by
  rw [mul128, require, if_pos h]
  rfl

theorem sub128_eq (h : y ≤ x) : sub128 x y = .ok (x - y) := by
  rw [sub128, require, if_pos h]
  rfl

variable {n : Nat}

section Sums
variable {a b : List Nat} {rows inner cols : Nat}

/-- A sum of products goes on over its indices. -/
theorem dot_eq {na nb i j sum : Nat} {ks : List Nat} (ha : Reduced a na) (hb : Reduced b nb)
    (hks : ∀ k ∈ ks, i * inner + k < na ∧ k * cols + j < nb)
    (hsum : sum + ks.length * (Q * Q) < 2 ^ 128) :
    dot a b inner cols i j sum ks = .ok (sum + Oracle.dot a b inner cols i j ks) := by
  induction ks generalizing sum with
  | nil => rfl
  | cons k ks ih =>
    obtain ⟨⟨hka, hkb⟩, hks⟩ := List.forall_mem_cons.mp hks
    have hproduct : a.getD (i * inner + k) 0 * b.getD (k * cols + j) 0 ≤ Q * Q :=
      Nat.mul_le_mul ha.getD_lt.le hb.getD_lt.le
    rw [List.length_cons, Nat.succ_mul] at hsum
    have hmul := mul128_eq (show a.getD (i * inner + k) 0 * b.getD (k * cols + j) 0 <
      2 ^ 128 by omega)
    have hadd := add128_eq (show sum + a.getD (i * inner + k) 0 * b.getD (k * cols + j) 0 <
      2 ^ 128 by omega)
    have hrest := @ih (sum + a.getD (i * inner + k) 0 * b.getD (k * cols + j) 0) hks (by omega)
    rw [dot, List.foldlM_cons, ha.entry hka, bind_of_ok rfl, hb.entry hkb, bind_of_ok rfl, hmul,
      bind_of_ok rfl, hadd, bind_of_ok rfl, ← dot, hrest, Oracle.dot, Oracle.dot, List.map_cons,
      List.sum_cons, Nat.add_assoc]

theorem mul_eq (ha : Reduced a (rows * inner)) (hb : Reduced b (inner * cols))
    (hinner : inner ≤ 64) :
    mul a b rows inner cols = .ok (Oracle.mm a b rows inner cols) := by
  refine mapM_eq_ok fun c hc => ?_
  obtain ⟨hi, hj⟩ := mem_cells hc
  have hdot := @dot_eq a b inner cols _ _ c.1 c.2 0 (List.range inner) ha hb
    (fun k hk => ⟨index_lt hi (List.mem_range.mp hk), index_lt (List.mem_range.mp hk) hj⟩)
    (by
      have hbound : inner * (Q * Q) ≤ 64 * (Q * Q) := Nat.mul_le_mul_right _ hinner
      rw [List.length_range, Nat.zero_add]
      exact lt_of_le_of_lt hbound (by decide))
  rw [hdot, bind_of_ok rfl, Nat.zero_add, reduce_eq]
  rfl

theorem reduced_mm : Reduced (Oracle.mm a b rows inner cols) (rows * cols) :=
  .map_mod (length_cells rows cols)

theorem addEntries_eq (ha : Reduced a n) (hb : Reduced b n) :
    addEntries a b = .ok (Oracle.addEntries a b) := by
  refine mapM_eq_ok fun x hx => ?_
  have hlt := ha.lt _ (List.of_mem_zip hx).1
  have hlt' := hb.lt _ (List.of_mem_zip hx).2
  simp only [Q] at hlt hlt'
  rw [add128_eq (by omega), bind_of_ok rfl, reduce_eq]
  rfl

theorem reduced_addEntries (ha : Reduced a n) (hb : Reduced b n) :
    Reduced (Oracle.addEntries a b) n :=
  .map_mod (by rw [List.length_zip, ha.length, hb.length, Nat.min_self])

theorem correct_eq (hx : x < Q) (hy : y < Q) (hz : z < Q) :
    correct x y z = .ok (((x : Int) - y - z) % (Q : Int)).toNat := by
  simp only [Q] at hx hy hz
  rw [correct, add128_eq (by simp only [Q]; omega), bind_of_ok rfl,
    sub128_eq (by simp only [Q]; omega), bind_of_ok rfl, sub128_eq (by simp only [Q]; omega),
    bind_of_ok rfl, reduce_eq]
  refine congrArg Except.ok ?_
  simp only [Q]
  omega

end Sums

/-! ## Tiles -/

variable {cp : List Nat} {c : Nat × Nat × Nat}

section Tiles
variable {ap bp : List Nat}

/-- The cells of the blocks. -/
def InRange (c : Nat × Nat × Nat) : Prop := c.1 < N ∧ c.2.1 < N ∧ c.2.2 < N / R

theorem inRange_of_mem (hblock : block ∈ blocks) (hc : c ∈ blockCells block) : InRange c := by
  simp only [blocks, List.mem_flatMap, List.mem_map, List.mem_range] at hblock
  obtain ⟨bi, hbi, bj, hbj, bk, hbk, rfl⟩ := hblock
  simp only [blockCells, List.mem_flatMap, List.mem_map, List.mem_range'_1] at hc
  obtain ⟨i, hi, j, hj, rfl⟩ := hc
  simp only [N, R, InRange] at *
  omega

/-- The new entry of a cell. -/
def cellValue (aa bb cp : List Nat) (c : Nat × Nat × Nat) : Nat :=
  (cp.getD (c.1 * N + c.2.1) 0 + Oracle.dot aa bb N N c.1 c.2.1 (List.range' (c.2.2 * R) R)) % Q

theorem tileStep_eq (hap : Reduced ap CELLS) (hbp : Reduced bp CELLS)
    (hs : Reduced s.cp CELLS) (hc : InRange c) :
    tileStep ap bp s c = .ok ⟨s.cp.set (c.1 * N + c.2.1) (cellValue ap bp s.cp c),
      s.transcript ++ Bytes.ofNat 4 (cellValue ap bp s.cp c)⟩ := by
  obtain ⟨hi, hj, hk⟩ := hc
  have hstart := hs.entry (i := c.1 * N + c.2.1) (index_lt hi hj)
  have hlt : s.cp.getD (c.1 * N + c.2.1) 0 < Q := hs.getD_lt
  have hdot := @dot_eq ap bp N N CELLS CELLS c.1 c.2.1 (s.cp.getD (c.1 * N + c.2.1) 0)
    (List.range' (c.2.2 * R) R) hap hbp
    (fun k hk' => by
      have hk' := List.mem_range'_1.mp hk'
      have hlt : k < N := by simp only [N, R] at *; omega
      exact ⟨index_lt hi hlt, index_lt hlt hj⟩)
    (by
      rw [List.length_range']
      exact lt_of_lt_of_le (Nat.add_lt_add_right hlt _) (by decide))
  rw [tileStep, hstart, bind_of_ok rfl, hdot, bind_of_ok rfl, reduce_eq]
  rfl

theorem reduced_set (hcp : Reduced cp CELLS) (c : Nat × Nat × Nat) :
    Reduced (cp.set (c.1 * N + c.2.1) (cellValue ap bp cp c)) CELLS := by
  refine ⟨by rw [List.length_set, hcp.length], fun v hv => ?_⟩
  rcases List.mem_or_eq_of_mem_set hv with hv | rfl
  · exact hcp.lt v hv
  · exact Nat.mod_lt _ (by decide)

theorem fieldBytes_append (a b : List Nat) :
    fieldBytes (a ++ b) = fieldBytes a ++ fieldBytes b := by
  simp [fieldBytes]

/-- The cells of a block: the values of the tile are appended to the transcript one by one. -/
theorem foldlM_tileStep (hap : Reduced ap CELLS) (hbp : Reduced bp CELLS)
    {cs : List (Nat × Nat × Nat)} (hcs : ∀ c ∈ cs, InRange c) {cp values : List Nat}
    (hcp : Reduced cp CELLS) (start : Bytes) :
    cs.foldlM (tileStep ap bp) ⟨cp, start ++ fieldBytes values⟩ =
      .ok ⟨(cs.foldl (Oracle.cell ap bp) (cp, values)).1,
        start ++ fieldBytes (cs.foldl (Oracle.cell ap bp) (cp, values)).2⟩ ∧
    Reduced (cs.foldl (Oracle.cell ap bp) (cp, values)).1 CELLS := by
  induction cs generalizing cp values with
  | nil => exact ⟨rfl, hcp⟩
  | cons c cs ih =>
    obtain ⟨hc, hcs⟩ := List.forall_mem_cons.mp hcs
    have hbytes : start ++ fieldBytes values ++ Bytes.ofNat 4 (cellValue ap bp cp c) =
        start ++ fieldBytes (values ++ [cellValue ap bp cp c]) := by
      rw [fieldBytes_append, List.append_assoc]
      simp [fieldBytes]
    rw [List.foldlM_cons, tileStep_eq hap hbp hcp hc, bind_of_ok rfl, List.foldl_cons]
    simp only [hbytes]
    exact ih hcs (reduced_set hcp c)

theorem tile_eq (s : TileState) (block : Nat × Nat × Nat) :
    Oracle.tile ap bp s block = ⟨((blockCells block).foldl (Oracle.cell ap bp) (s.cp, [])).1,
      s.transcript ++ fieldBytes ((blockCells block).foldl (Oracle.cell ap bp) (s.cp, [])).2⟩ := by
  simp only [Oracle.tile]

theorem foldlM_blocks (hap : Reduced ap CELLS) (hbp : Reduced bp CELLS)
    {bs : List (Nat × Nat × Nat)} (hbs : ∀ block ∈ bs, ∀ c ∈ blockCells block, InRange c)
    {s : TileState} (hs : Reduced s.cp CELLS) :
    (bs.flatMap blockCells).foldlM (tileStep ap bp) s = .ok (bs.foldl (Oracle.tile ap bp) s) ∧
      Reduced (bs.foldl (Oracle.tile ap bp) s).cp CELLS := by
  induction bs generalizing s with
  | nil => exact ⟨by rw [List.flatMap_nil, List.foldlM_nil]; rfl, hs⟩
  | cons block bs ih =>
    obtain ⟨hblock, hbs⟩ := List.forall_mem_cons.mp hbs
    obtain ⟨hcells, hreduced⟩ := @foldlM_tileStep _ _ hap hbp _ hblock s.cp [] hs s.transcript
    have hstart : s.transcript ++ fieldBytes [] = s.transcript := List.append_nil _
    rw [hstart] at hcells
    rw [List.flatMap_cons, List.foldlM_append, hcells, bind_of_ok rfl, List.foldl_cons, tile_eq]
    refine ih hbs ?_
    dsimp only
    exact hreduced

theorem reduced_replicate (n : Nat) (hv : v < Q) : Reduced (List.replicate n v) n :=
  ⟨List.length_replicate .., fun _ hw => List.eq_of_mem_replicate hw ▸ hv⟩

end Tiles

/-! ## Noise -/

section Noise
variable {sha256 : Bytes → Hash}

theorem pushWords_eq (h : out.length < len) :
    pushWords len out ws = (out ++ ws.filter (· < Q)).take len := by
  induction ws generalizing out with
  | nil => rw [pushWords, List.filter_nil, List.append_nil, List.take_of_length_le h.le]
  | cons v ws ih =>
    rw [pushWords, List.filter_cons]
    by_cases hv : v < Q
    · rw [if_pos hv, if_pos (decide_eq_true hv)]
      have hlength : (out ++ [v]).length = out.length + 1 := by simp
      have happend : out ++ v :: ws.filter (· < Q) = (out ++ [v]) ++ ws.filter (· < Q) := by simp
      split
      · next hfull => rw [happend, List.take_left' hfull]
      · next hmore => rw [happend, ih (by omega)]
    · rw [if_neg hv, if_neg (by simpa using hv)]
      exact ih h

theorem framed_noise (c : Hash) (label : UInt8) (counter : Nat) :
    Framed "noise" (noiseParts c label counter) := by
  refine ⟨by decide, ?_⟩
  simp [noiseParts, c.size_eq]

/-- Both loops expand the noise to the same words: the native one cuts the last hash off. -/
theorem expandFrom_eq_ok {c : Hash} {label : UInt8} {n left : Nat} {out v : List Nat} :
    expandFrom sha256 c label n left (out.take n) = .ok v ↔
      Oracle.expandFrom sha256 c label n left out = .ok v := by
  have hfull : (out.take n).length < n ↔ out.length < n := by
    rw [List.length_take]
    omega
  induction left generalizing out with
  | zero =>
    simp only [expandFrom, Oracle.expandFrom, hfull]
    split <;> simp
  | succ left ih =>
    simp only [expandFrom, Oracle.expandFrom, hfull]
    split
    · next hless =>
      rw [H_of_framed (framed_noise ..), bind_of_ok rfl, List.take_of_length_le hless.le,
        pushWords_eq hless]
      exact ih (by rw [List.length_take]; omega)
    · simp

theorem expand_eq_ok {c : Hash} :
    expand sha256 c label n = .ok v ↔ Oracle.expand sha256 c label n = .ok v := by
  have h := @expandFrom_eq_ok sha256 c label n 128 [] v
  rwa [List.take_nil] at h

theorem reduced_expandFrom {c : Hash} (hout : ∀ w ∈ out, w < Q)
    (h : Oracle.expandFrom sha256 c label n left out = .ok v) : Reduced v n := by
  have hdone (hlong : ¬ out.length < n) : Reduced (out.take n) n :=
    ⟨by rw [List.length_take]; omega, fun w hw => hout w (List.mem_of_mem_take hw)⟩
  induction left generalizing out with
  | zero =>
    simp only [Oracle.expandFrom] at h
    split at h
    · cases h
    · next hlong => exact Except.ok.inj h ▸ hdone hlong
  | succ left ih =>
    simp only [Oracle.expandFrom] at h
    split at h
    · rw [H_of_framed (framed_noise ..), bind_of_ok rfl] at h
      have hnext : ∀ w ∈ out ++
          (words (hash sha256 "noise" (noiseParts c label (127 - left))).bytes).filter
          (· < Q), w < Q := by
        intro w hw
        rcases List.mem_append.mp hw with hw | hw
        · exact hout w hw
        · simpa using (List.mem_filter.mp hw).2
      exact ih hnext h fun hlong =>
        ⟨by rw [List.length_take]; omega, fun w hw => hnext w (List.mem_of_mem_take hw)⟩
    · next hlong => exact Except.ok.inj h ▸ hdone hlong

theorem reduced_expand {c : Hash} (h : expand sha256 c label n = .ok v) : Reduced v n :=
  reduced_expandFrom (by simp) (expand_eq_ok.mp h)

end Noise

/-! ## Both relations agree -/

variable {a b : List Nat}

section Evaluate
variable {sha256 : Bytes → Hash}

/-- The part of the oracle's relation behind the noise. -/
def oracleResult (sha256 : Bytes → Hash) (c : Hash) (a b el er fl fr : List Nat) :
    List Nat × Hash :=
  let bb := Oracle.addEntries b (Oracle.mm fl fr N R N)
  let s := blocks.foldl (Oracle.tile (Oracle.addEntries a (Oracle.mm el er N R N)) bb)
    ⟨List.replicate CELLS 0, traceStart c⟩
  let c1 := Oracle.mm (Oracle.mm a fl N N R) fr N R N
  let c2 := Oracle.mm el (Oracle.mm er bb R N N) N R N
  (((s.cp.zip c1).zip c2).map fun x => (((x.1.1 : Int) - x.1.2 - x.2) % (Q : Int)).toNat,
    sha256 s.transcript)

theorem oracle_evaluate_eq_ok {c : Hash} :
    Oracle.evaluate sha256 c a b = .ok r ↔ Reduced a CELLS ∧ Reduced b CELLS ∧ ∃ el er fl fr,
      expand sha256 c 0 (N * R) = .ok el ∧ expand sha256 c 1 (N * R) = .ok er ∧
      expand sha256 c 2 (N * R) = .ok fl ∧ expand sha256 c 3 (N * R) = .ok fr ∧
      oracleResult sha256 c a b el er fl fr = r := by
  simp only [Oracle.evaluate, bind_eq_ok, pure_eq_ok, expand_eq_ok]
  constructor
  · rintro ⟨_, ha, _, hb, el, hel, er, her, fl, hfl, fr, hfr, h⟩
    exact ⟨check_eq_ok.mp ha, check_eq_ok.mp hb, el, er, fl, fr, hel, her, hfl, hfr, h⟩
  · rintro ⟨ha, hb, el, er, fl, fr, hel, her, hfl, hfr, h⟩
    exact ⟨(), check_eq_ok.mpr ha, (), check_eq_ok.mpr hb, el, hel, er, her, fl, hfl, fr, hfr, h⟩

/-- Behind the noise no step of the native code leaves its words. -/
theorem evaluate_eq {c : Hash} (ha : Reduced a CELLS) (hb : Reduced b CELLS)
    (hel : expand sha256 c 0 (N * R) = .ok el) (her : expand sha256 c 1 (N * R) = .ok er)
    (hfl : expand sha256 c 2 (N * R) = .ok fl) (hfr : expand sha256 c 3 (N * R) = .ok fr) :
    evaluate sha256 c a b = .ok (oracleResult sha256 c a b el er fl fr) := by
  have hel' : Reduced el (N * R) := reduced_expand hel
  have her' : Reduced er (R * N) := reduced_expand her
  have hfl' : Reduced fl (N * R) := reduced_expand hfl
  have hfr' : Reduced fr (R * N) := reduced_expand hfr
  have he : Reduced (Oracle.mm el er N R N) CELLS := reduced_mm
  have hf : Reduced (Oracle.mm fl fr N R N) CELLS := reduced_mm
  have hap := reduced_addEntries ha he
  have hbp := reduced_addEntries hb hf
  obtain ⟨hblocks, hcp⟩ := @foldlM_blocks _ _ hap hbp blocks (fun block hb c hc =>
    inRange_of_mem hb hc)
    ⟨List.replicate CELLS 0, traceStart c⟩ (reduced_replicate CELLS (by decide))
  rw [evaluate, ha.validate, bind_of_ok rfl, hb.validate, bind_of_ok rfl, hel,
    bind_of_ok rfl, show expand sha256 c 1 (R * N) = .ok er from her, bind_of_ok rfl, hfl,
    bind_of_ok rfl, show expand sha256 c 3 (R * N) = .ok fr from hfr, bind_of_ok rfl,
    mul_eq hel' her' (by decide), bind_of_ok rfl, mul_eq hfl' hfr' (by decide), bind_of_ok rfl,
    addEntries_eq ha he, bind_of_ok rfl, addEntries_eq hb hf, bind_of_ok rfl, hblocks,
    bind_of_ok rfl, mul_eq (show Reduced a (N * N) from ha) hfl' (by decide), bind_of_ok rfl,
    mul_eq reduced_mm hfr' (by decide), bind_of_ok rfl,
    mul_eq her' (show Reduced _ (N * N) from hbp) (by decide), bind_of_ok rfl,
    mul_eq hel' reduced_mm (by decide), bind_of_ok rfl]
  rw [mapM_eq_ok fun x hx => correct_eq ?_ ?_ ?_]
  · rfl
  · exact hcp.lt _ (List.of_mem_zip (List.of_mem_zip hx).1).1
  · exact reduced_mm.lt _ (List.of_mem_zip (List.of_mem_zip hx).1).2
  · exact reduced_mm.lt _ (List.of_mem_zip hx).2

/-- The native relation is the oracle's. -/
theorem evaluate_eq_ok {c : Hash} :
    evaluate sha256 c a b = .ok r ↔ Oracle.evaluate sha256 c a b = .ok r := by
  rw [oracle_evaluate_eq_ok]
  constructor
  · intro h
    have hnoise := h
    simp only [evaluate, bind_eq_ok] at hnoise
    obtain ⟨_, ha, _, hb, el, hel, er, her, fl, hfl, fr, hfr, -⟩ := hnoise
    have ha := validate_eq_ok.mp ha
    have hb := validate_eq_ok.mp hb
    rw [evaluate_eq ha hb hel her hfl hfr] at h
    exact ⟨ha, hb, el, er, fl, fr, hel, her, hfl, hfr, Except.ok.inj h⟩
  · rintro ⟨ha, hb, el, er, fl, fr, hel, her, hfl, hfr, rfl⟩
    exact evaluate_eq ha hb hel her hfl hfr

end Evaluate

/-! ## The algebra -/

section Algebra

/-- A list of entries row by row, over the integers modulo `Q`. -/
def mat (rows cols : Nat) (values : List Nat) : Matrix (Fin rows) (Fin cols) (ZMod Q) :=
  Matrix.of fun i j => (values.getD (i * cols + j) 0 : ZMod Q)

theorem getD_mm {rows inner cols i j : Nat} (hi : i < rows) (hj : j < cols) :
    (Oracle.mm a b rows inner cols).getD (i * cols + j) 0 =
      Oracle.dot a b inner cols i j (List.range inner) % Q := by
  have hcols : 0 < cols := by omega
  have hdiv : (i * cols + j) / cols = i := by
    rw [Nat.mul_comm, Nat.mul_add_div hcols, Nat.div_eq_of_lt hj, Nat.add_zero]
  have hmod : (i * cols + j) % cols = j := by
    rw [Nat.mul_comm, Nat.mul_add_mod, Nat.mod_eq_of_lt hj]
  rw [List.getD_eq_getElem?_getD, Oracle.mm, cells, List.map_map, List.getElem?_map,
    List.getElem?_range (index_lt hi hj), Option.map_some, Option.getD_some, Function.comp_apply,
    hdiv, hmod]

theorem cast_dot (a b : List Nat) (k m i j : Nat) (ts : List Nat) :
    (Oracle.dot a b k m i j ts : ZMod Q) =
      (ts.map fun t => (a.getD (i * k + t) 0 : ZMod Q) * (b.getD (t * m + j) 0 : ZMod Q)).sum := by
  simp [Oracle.dot, Nat.cast_list_sum, Function.comp_def]

theorem cast_dot_range {rows inner cols : Nat} (i : Fin rows) (j : Fin cols) :
    (Oracle.dot a b inner cols i j (List.range inner) : ZMod Q) =
      (mat rows inner a * mat inner cols b) i j := by
  rw [cast_dot, Matrix.mul_apply]
  simp only [mat, Matrix.of_apply]
  exact Finset.sum_range fun t => (a.getD (i * inner + t) 0 : ZMod Q) *
    (b.getD (t * cols + j) 0 : ZMod Q)

theorem mat_mm (a b : List Nat) (rows inner cols : Nat) :
    mat rows cols (Oracle.mm a b rows inner cols) = mat rows inner a * mat inner cols b := by
  ext i j
  rw [← cast_dot_range, mat, Matrix.of_apply, getD_mm i.isLt j.isLt, ZMod.natCast_mod]

theorem getElem?_zip {α β : Type} {a : List α} {b : List β} {x : α} {y : β} (ha : a[n]? = some x)
    (hb : b[n]? = some y) : (a.zip b)[n]? = some (x, y) :=
  List.getElem?_zip_eq_some.mpr ⟨ha, hb⟩

theorem mat_addEntries (ha : Reduced a (rows * cols)) (hb : Reduced b (rows * cols)) :
    mat rows cols (Oracle.addEntries a b) = mat rows cols a + mat rows cols b := by
  ext i j
  have hlt := index_lt i.isLt j.isLt
  have hzip := getElem?_zip (ha.getElem? hlt) (hb.getElem? hlt)
  rw [Matrix.add_apply, mat, Matrix.of_apply, List.getD_eq_getElem?_getD, Oracle.addEntries,
    List.getElem?_map, hzip, Option.map_some, Option.getD_some, ZMod.natCast_mod, Nat.cast_add]
  rfl

/-- The entries of the result: the corrections are taken off. -/
theorem mat_correct {x y z : List Nat} (hx : Reduced x (rows * cols))
    (hy : Reduced y (rows * cols)) (hz : Reduced z (rows * cols)) :
    mat rows cols (((x.zip y).zip z).map fun v =>
      (((v.1.1 : Int) - v.1.2 - v.2) % (Q : Int)).toNat) =
      mat rows cols x - mat rows cols y - mat rows cols z := by
  ext i j
  have hlt := index_lt i.isLt j.isLt
  have hzip := getElem?_zip (getElem?_zip (hx.getElem? hlt) (hy.getElem? hlt)) (hz.getElem? hlt)
  have hcast (v : Int) : (((v % (Q : Int)).toNat : Nat) : ZMod Q) = (v : ZMod Q) := by
    rw [← Int.cast_natCast, Int.toNat_of_nonneg (Int.emod_nonneg v (by decide)), ZMod.intCast_mod]
  rw [Matrix.sub_apply, Matrix.sub_apply, mat, Matrix.of_apply, List.getD_eq_getElem?_getD,
    List.getElem?_map, hzip, Option.map_some, Option.getD_some, hcast]
  push_cast
  rfl

/-! ### The tiles add up to the masked product -/

variable {aa bb : List Nat}

def update (aa bb cp : List Nat) (c : Nat × Nat × Nat) : List Nat :=
  cp.set (c.1 * N + c.2.1) (cellValue aa bb cp c)

theorem foldl_cell_fst (cs : List (Nat × Nat × Nat)) (cp values : List Nat) :
    (cs.foldl (Oracle.cell aa bb) (cp, values)).1 = cs.foldl (update aa bb) cp := by
  induction cs generalizing cp values with
  | nil => rfl
  | cons c cs ih => exact ih ..

theorem foldl_tile_cp (bs : List (Nat × Nat × Nat)) (s : TileState) :
    (bs.foldl (Oracle.tile aa bb) s).cp = (bs.flatMap blockCells).foldl (update aa bb) s.cp := by
  induction bs generalizing s with
  | nil => rfl
  | cons block bs ih =>
    rw [List.foldl_cons, ih, tile_eq, List.flatMap_cons, List.foldl_append, foldl_cell_fst]

/-- What a cell adds to the entry at a place. -/
def share (aa bb : List Nat) (i j : Nat) (c : Nat × Nat × Nat) : ZMod Q :=
  if c.1 = i then
    if c.2.1 = j then (Oracle.dot aa bb N N i j (List.range' (c.2.2 * R) R) : ZMod Q) else 0
  else 0

theorem cast_getD_update (hcp : Reduced cp CELLS) (hc : InRange c) (hi : i < N) (hj : j < N) :
    ((update aa bb cp c).getD (i * N + j) 0 : ZMod Q) = cp.getD (i * N + j) 0 +
      share aa bb i j c := by
  obtain ⟨ci, cj, ck⟩ := c
  obtain ⟨hci, hcj, -⟩ := hc
  have hlt : i * N + j < cp.length := by rw [hcp.length]; exact index_lt hi hj
  by_cases hplace : ci = i ∧ cj = j
  · obtain ⟨rfl, rfl⟩ := hplace
    rw [update, List.getD_eq_getElem?_getD, List.getElem?_set_self hlt, Option.getD_some, cellValue,
      ZMod.natCast_mod, Nat.cast_add, share, if_pos rfl, if_pos rfl]
  · have hne : ci * N + cj ≠ i * N + j := by
      simp only [N] at *
      omega
    have hshare : share aa bb i j (ci, cj, ck) = 0 := by
      rw [share]
      split
      · next heq => exact if_neg fun heq' => hplace ⟨heq, heq'⟩
      · rfl
    rw [update, List.getD_eq_getElem?_getD, List.getElem?_set_ne hne, ← List.getD_eq_getElem?_getD,
      hshare, add_zero]

theorem cast_getD_foldl_update {cs : List (Nat × Nat × Nat)} (hcs : ∀ c ∈ cs, InRange c)
    (hcp : Reduced cp CELLS) (hi : i < N) (hj : j < N) :
    ((cs.foldl (update aa bb) cp).getD (i * N + j) 0 : ZMod Q) =
      cp.getD (i * N + j) 0 + (cs.map (share aa bb i j)).sum := by
  induction cs generalizing cp with
  | nil => simp
  | cons c cs ih =>
    obtain ⟨hc, hcs⟩ := List.forall_mem_cons.mp hcs
    have hnext : Reduced (update aa bb cp c) CELLS := reduced_set hcp c
    rw [List.foldl_cons, ih hcs hnext, cast_getD_update hcp hc hi hj, List.map_cons,
      List.sum_cons, add_assoc]

/-- A sum with one term that counts. -/
theorem sum_map_ite {l : List Nat} (hl : l.Nodup) (x : Nat) (v : ZMod Q) :
    (l.map fun y => if y = x then v else 0).sum = if x ∈ l then v else 0 := by
  induction l with
  | nil => simp
  | cons y l ih =>
    obtain ⟨hy, hl⟩ := List.nodup_cons.mp hl
    rw [List.map_cons, List.sum_cons, ih hl]
    by_cases hyx : y = x
    · subst hyx
      simp [hy]
    · simp [hyx, Ne.symm hyx]

theorem sum_map_guard {α : Type} (l : List α) (p : Prop) [Decidable p] (f : α → ZMod Q) :
    (l.map fun x => if p then f x else 0).sum = if p then (l.map f).sum else 0 := by
  split <;> simp

theorem sum_flatMap {α β : Type} (l : List α) (f : α → List β) (g : β → ZMod Q) :
    ((l.flatMap f).map g).sum = (l.map fun x => ((f x).map g).sum).sum := by
  induction l with
  | nil => rfl
  | cons x l ih => rw [List.flatMap_cons, List.map_append, List.sum_append, ih, List.map_cons,
    List.sum_cons]

/-- A block adds to an entry when the entry lies in it. -/
theorem sum_share_blockCells (bi bj bk i j : Nat) :
    ((blockCells (bi, bj, bk)).map (share aa bb i j)).sum =
      if bi = i / R then
        if bj = j / R then (Oracle.dot aa bb N N i j (List.range' (bk * R) R) : ZMod Q)
          else 0 else 0 := by
  have hmem (b x : Nat) : x ∈ List.range' (b * R) R ↔ b = x / R := by
    rw [List.mem_range'_1]
    simp only [R]
    omega
  have hrow (x : Nat) : (((List.range' (bj * R) R).map fun y => (x, y, bk)).map
      (share aa bb i j)).sum = if x = i then
        if bj = j / R then (Oracle.dot aa bb N N i j (List.range' (bk * R) R) : ZMod Q) else 0
      else 0 := by
    simp only [List.map_map, Function.comp_def, share]
    by_cases hx : x = i
    · simp only [if_pos hx]
      rw [sum_map_ite List.nodup_range', if_congr (hmem ..) rfl rfl]
    · simp [hx]
  rw [blockCells, sum_flatMap]
  simp only [hrow]
  rw [sum_map_ite List.nodup_range', if_congr (hmem ..) rfl rfl]

theorem sum_share_blocks {i j : Nat} (hi : i < N) (hj : j < N) :
    ((blocks.flatMap blockCells).map (share aa bb i j)).sum =
      (Oracle.dot aa bb N N i j (List.range N) : ZMod Q) := by
  have hi' : i / R ∈ List.range (N / R) := List.mem_range.mpr (by simp only [N, R] at *; omega)
  have hj' : j / R ∈ List.range (N / R) := List.mem_range.mpr (by simp only [N, R] at *; omega)
  have hrange : List.range N = (List.range (N / R)).flatMap fun bk => List.range' (bk * R) R := by
    decide
  rw [sum_flatMap, blocks, sum_flatMap]
  simp only [sum_flatMap, List.map_map, Function.comp_def, sum_share_blockCells, sum_map_guard]
  rw [sum_map_ite List.nodup_range, if_pos hi', sum_map_ite List.nodup_range, if_pos hj', hrange,
    cast_dot, sum_flatMap]
  simp only [cast_dot]

theorem mat_tiles {c : Hash} :
    mat N N (blocks.foldl (Oracle.tile aa bb) ⟨List.replicate CELLS 0, traceStart c⟩).cp =
      mat N N aa * mat N N bb := by
  ext i j
  have hcells : ∀ x ∈ blocks.flatMap blockCells, InRange x := by
    intro x hx
    obtain ⟨block, hblock, hx⟩ := List.mem_flatMap.mp hx
    exact inRange_of_mem hblock hx
  have hstart : (List.replicate CELLS 0).getD (i * N + j) 0 = 0 :=
    List.getD_replicate _ (index_lt i.isLt j.isLt)
  rw [mat, Matrix.of_apply, foldl_tile_cp,
    cast_getD_foldl_update hcells (reduced_replicate CELLS (by decide)) i.isLt j.isLt,
    sum_share_blocks i.isLt j.isLt, cast_dot_range, hstart, Nat.cast_zero, zero_add]

/-- The noise `E = el er` on `a` and `F = fl fr` on `b` comes off with two products of low rank. -/
theorem unmask (a b : Matrix (Fin N) (Fin N) (ZMod Q)) (el fl : Matrix (Fin N) (Fin R) (ZMod Q))
    (er fr : Matrix (Fin R) (Fin N) (ZMod Q)) :
    (a + el * er) * (b + fl * fr) - a * fl * fr - el * (er * (b + fl * fr)) = a * b := by
  rw [Matrix.mul_assoc a, ← Matrix.mul_assoc el, Matrix.add_mul, Matrix.mul_add a]
  abel

theorem reduced_correct (hx : Reduced x n) (hy : Reduced y n) (hz : Reduced z n) :
    Reduced (((x.zip y).zip z).map fun v => (((v.1.1 : Int) - v.1.2 - v.2) % (Q : Int)).toNat)
      n := by
  refine ⟨by simp [hx.length, hy.length, hz.length], fun v hv => ?_⟩
  obtain ⟨w, -, rfl⟩ := List.mem_map.mp hv
  exact (Int.toNat_lt (Int.emod_nonneg _ (by decide))).mpr (Int.emod_lt_of_pos _ (by decide))

theorem mat_oracleResult {sha256 : Bytes → Hash} {c : Hash} {a b el er fl fr : List Nat}
    (ha : Reduced a CELLS) (hb : Reduced b CELLS) :
    Reduced (oracleResult sha256 c a b el er fl fr).1 (N * N) ∧
      mat N N (oracleResult sha256 c a b el er fl fr).1 = mat N N a * mat N N b := by
  have he : Reduced (Oracle.mm el er N R N) CELLS := reduced_mm
  have hf : Reduced (Oracle.mm fl fr N R N) CELLS := reduced_mm
  have hcells : ∀ block ∈ blocks, ∀ x ∈ blockCells block, InRange x := fun _ hb _ hx =>
    inRange_of_mem hb hx
  have hcp := (@foldlM_blocks _ _ (reduced_addEntries ha he) (reduced_addEntries hb hf)
    blocks hcells ⟨List.replicate CELLS 0, traceStart c⟩ (reduced_replicate CELLS (by decide))).2
  have hap : mat N N (Oracle.addEntries a (Oracle.mm el er N R N)) =
      mat N N a + mat N R el * mat R N er := by
    rw [← mat_mm]
    exact mat_addEntries ha he
  have hbp : mat N N (Oracle.addEntries b (Oracle.mm fl fr N R N)) =
      mat N N b + mat N R fl * mat R N fr := by
    rw [← mat_mm]
    exact mat_addEntries hb hf
  simp only [oracleResult]
  refine ⟨reduced_correct hcp reduced_mm reduced_mm, ?_⟩
  rw [mat_correct hcp reduced_mm reduced_mm, mat_tiles]
  simp only [mat_mm, hap, hbp]
  exact unmask ..

theorem reduced_of_evaluate {c : Hash} (h : evaluate sha256 c a b = .ok (product, trace)) :
    Reduced a CELLS ∧ Reduced b CELLS ∧ Reduced product CELLS := by
  obtain ⟨ha, hb, el, er, fl, fr, -, -, -, -, hresult⟩ :=
    oracle_evaluate_eq_ok.mp (evaluate_eq_ok.mp h)
  have hproduct := (@mat_oracleResult sha256 c a b el er fl fr ha hb).1
  rw [hresult] at hproduct
  exact ⟨ha, hb, hproduct⟩

end Algebra

/-- The product that the native code returns is the product of the matrices modulo `Q`, entry by
entry, and no word overflows on the way. -/
theorem evaluate_returns_product (sha256 : Bytes → Hash) (challenge : Hash)
    (a b el er fl fr : List Nat) (ha : validate a = .ok ()) (hb : validate b = .ok ())
    (hel : expand sha256 challenge 0 (N * R) = .ok el)
    (her : expand sha256 challenge 1 (R * N) = .ok er)
    (hfl : expand sha256 challenge 2 (N * R) = .ok fl)
    (hfr : expand sha256 challenge 3 (R * N) = .ok fr) :
    ∃ product trace, evaluate sha256 challenge a b = .ok (product, trace) ∧ product.length = N * N ∧
      ∀ i < N, ∀ j < N, product[i * N + j]? =
        some ((∑ k ∈ Finset.range N, a.getD (i * N + k) 0 * b.getD (k * N + j) 0) % Q) := by
  have ha := validate_eq_ok.mp ha
  have hb := validate_eq_ok.mp hb
  have hresult := evaluate_eq ha hb hel her hfl hfr
  obtain ⟨hproduct, hmat⟩ := @mat_oracleResult sha256 challenge a b el er fl fr ha hb
  generalize oracleResult sha256 challenge a b el er fl fr = result at hresult hproduct hmat
  obtain ⟨product, trace⟩ := result
  refine ⟨product, trace, hresult, hproduct.length, fun i hi j hj => ?_⟩
  have hentry : mat N N product ⟨i, hi⟩ ⟨j, hj⟩ =
      (Oracle.dot a b N N i j (List.range N) : ZMod Q) := by
    rw [hmat, ← cast_dot_range]
  have hmod := (ZMod.natCast_eq_natCast_iff' _ _ Q).mp hentry
  rw [Nat.mod_eq_of_lt hproduct.getD_lt] at hmod
  rw [hproduct.getElem? (index_lt hi hj), hmod]
  rfl

/-- One noise for all labels. -/
def sampleHash (_ : Bytes) : Hash := Hash.ofByte 1

def sampleNoise : List Nat := (List.replicate 64 (words (Hash.ofByte 1).bytes)).flatten

theorem expandFrom_sampleHash (c : Hash) (label : UInt8) (n left : Nat) (out : List Nat) :
    expandFrom sampleHash c label n left out = expandFrom sampleHash c 0 n left out := by
  induction left generalizing out with
  | zero => rfl
  | succ left ih =>
    simp only [expandFrom]
    rw [ih]
    rfl

theorem expand_sampleHash (label : UInt8) :
    expand sampleHash (Hash.ofByte 1) label (N * R) = .ok sampleNoise :=
  (expandFrom_sampleHash ..).trans (by decide +kernel)

/-- The square of the matrix of ones. -/
theorem evaluate_ones_first_entry :
    ∃ product trace, evaluate sampleHash (Hash.ofByte 1) (List.replicate CELLS 1)
      (List.replicate CELLS 1) = .ok (product, trace) ∧ product[0]? = some 64 := by
  have hones := (reduced_replicate CELLS (show 1 < Q by decide)).validate
  obtain ⟨product, trace, hresult, -, hentry⟩ := evaluate_returns_product sampleHash (Hash.ofByte 1)
    (List.replicate CELLS 1) (List.replicate CELLS 1) sampleNoise sampleNoise sampleNoise
      sampleNoise hones hones
    (expand_sampleHash 0) (expand_sampleHash 1) (expand_sampleHash 2) (expand_sampleHash 3)
  have hone (n : Nat) (hn : n < CELLS) : (List.replicate CELLS 1).getD n 0 = 1 :=
    List.getD_replicate _ hn
  have hsum : ∑ k ∈ Finset.range N, (List.replicate CELLS 1).getD (0 * N + k) 0 *
      (List.replicate CELLS 1).getD (k * N + 0) 0 = ∑ _k ∈ Finset.range N, 1 := by
    refine Finset.sum_congr rfl fun k hk => ?_
    have hk := Finset.mem_range.mp hk
    have hzero : 0 < N := by decide
    rw [hone (0 * N + k) (index_lt hzero hk), hone (k * N + 0) (index_lt hk hzero)]
  have hfirst := hentry 0 (by decide) 0 (by decide)
  rw [hsum, Finset.sum_const, Finset.card_range] at hfirst
  exact ⟨product, trace, hresult, hfirst⟩

end Trillionnium.Pon.Work
