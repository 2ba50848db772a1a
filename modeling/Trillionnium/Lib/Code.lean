import Trillionnium.Lib.Bytes

/-!
# Self-delimiting codes

A code writes a value as bytes, where it can represent the value, and reads a value off the front of
a byte string. Reading gives back what was written and the bytes after it, so codes can be put one
after another. The combinators build the code of a record from those of its fields, with the law as
a field of the structure: every code that is built is injective (`Code.encode_inj`).
-/

namespace Lib

structure Code (α : Type) where
  encode : α → Option Bytes
  decode : Bytes → Option (α × Bytes)
  decode_encode : ∀ {a : α} {x : Bytes}, encode a = some x → ∀ r, decode (x ++ r) = some (a, r)

namespace Code

variable {α β : Type}

/-- Different values have different bytes. -/
theorem encode_inj (c : Code α) (ha : c.encode a = some x) (hb : c.encode b = some x) : a = b := by
  have h := (c.decode_encode ha []).symm.trans (c.decode_encode hb [])
  exact congrArg Prod.fst (Option.some.inj h)

/-- What is written of a value ends where it ends, whatever stands behind it. -/
theorem value_append_inj (c : Code α) (ha : c.encode a = some x)
    (hb : c.encode b = some y) (h : x ++ r = y ++ s) : a = b ∧ r = s := by
  have hdecode := c.decode_encode ha r
  rw [h, c.decode_encode hb s, Option.some.injEq, Prod.mk.injEq] at hdecode
  exact ⟨hdecode.1.symm, hdecode.2.symm⟩

def fixed (width : Nat) (f : α → Bytes) (g : Bytes → Option α) (hwidth : ∀ a, (f a).length = width)
    (hg : ∀ a, g (f a) = some a) : Code α where
  encode a := some (f a)
  decode bs :=
    if width ≤ bs.length then do
      let a ← g (bs.take width)
      some (a, bs.drop width)
    else none
  decode_encode := by
    rintro a _ ⟨⟩ r
    simp [← hwidth a, hg]

/-- Unsigned integers, little-endian. -/
def uint (w width : Nat) (h : 2 ^ w ≤ 256 ^ width) : Code (BitVec w) :=
  fixed width (fun n => Bytes.ofNat width n.toNat) (fun bs =>
    some (BitVec.ofNat w (Bytes.toNat bs))) (fun _ => Bytes.length_ofNat _ _) fun n => by
      rw [Bytes.toNat_ofNat (lt_of_lt_of_le n.isLt h), BitVec.ofNat_toNat, BitVec.setWidth_eq]

theorem byte_fits : 2 ^ 8 ≤ 256 ^ 1 := by norm_num

/-- A word is told by its bytes, whatever stands behind them. -/
theorem word_append_inj (hw : 2 ^ w ≤ 256 ^ width) {a b : BitVec w}
    (h : Bytes.ofNat width a.toNat ++ r = Bytes.ofNat width b.toNat ++ s) : a = b ∧ r = s :=
  (uint w width hw).value_append_inj rfl rfl h

def byte : Code UInt8 := fixed 1 (fun b => [b]) List.head? (fun _ => rfl) fun _ => rfl

def bool : Code Bool :=
  fixed 1 (fun b => [if b then 1 else 0])
    (fun
      | [0] => some false
      | [1] => some true
      | _ => none)
    (fun _ => rfl) fun b => by cases b <;> rfl

def pair (c : Code α) (d : Code β) : Code (α × β) where
  encode p := do
    let x ← c.encode p.1
    let y ← d.encode p.2
    some (x ++ y)
  decode bs := do
    let (a, bs) ← c.decode bs
    let (b, bs) ← d.decode bs
    some ((a, b), bs)
  decode_encode := by
    rintro ⟨a, b⟩ x hx r
    simp only [Option.bind_eq_bind, Option.bind_eq_some_iff, Option.some.injEq] at hx
    obtain ⟨xa, ha, xb, hb, rfl⟩ := hx
    simp [c.decode_encode ha, d.decode_encode hb]

/-- The code of a type whose values are some of the values of another. -/
def through (c : Code β) (f : α → β) (g : β → Option α) (hg : ∀ a, g (f a) = some a) : Code α where
  encode a := c.encode (f a)
  decode bs := do
    let (b, bs) ← c.decode bs
    let a ← g b
    some (a, bs)
  decode_encode := by
    intro a x hx r
    simp [c.decode_encode hx, hg]

/-- A record, as the tuple of its fields. -/
def record (c : Code β) (fields : α → β) (make : β → α) (h : ∀ a, make (fields a) = a) : Code α :=
  c.through fields (some ∘ make) fun a => congrArg some (h a)

def items (c : Code α) : List α → Option Bytes
  | [] => some []
  | a :: l => do
    let x ← c.encode a
    let y ← items c l
    some (x ++ y)

def readItems (c : Code α) : Nat → Bytes → Option (List α × Bytes)
  | 0, bs => some ([], bs)
  | n + 1, bs => do
    let (a, bs) ← c.decode bs
    let (l, bs) ← readItems c n bs
    some (a :: l, bs)

theorem readItems_items (c : Code α) (hx : c.items l = some x) (r : Bytes) :
    c.readItems l.length (x ++ r) = some (l, r) := by
  induction l generalizing x with
  | nil =>
    cases hx
    rfl
  | cons a l ih =>
    simp only [items, Option.bind_eq_bind, Option.bind_eq_some_iff, Option.some.injEq] at hx
    obtain ⟨y, hy, z, hz, rfl⟩ := hx
    simp [readItems, c.decode_encode hy, ih hz]

/-- A list: its length in four bytes and its items. Longer lists cannot be written. -/
def vec (c : Code α) : Code (List α) where
  encode l :=
    if l.length < 2 ^ 32 then do
      let body ← c.items l
      some (Bytes.ofNat 4 l.length ++ body)
    else none
  decode bs :=
    if 4 ≤ bs.length then c.readItems (Bytes.toNat (bs.take 4)) (bs.drop 4) else none
  decode_encode := by
    intro l x hx r
    simp only [Option.ite_none_right_eq_some, Option.bind_eq_bind, Option.bind_eq_some_iff,
      Option.some.injEq] at hx
    obtain ⟨hl, body, hbody, rfl⟩ := hx
    have htake : (Bytes.ofNat 4 l.length ++ body ++ r).take 4 = Bytes.ofNat 4 l.length := by
      rw [List.append_assoc]
      exact List.take_left' (Bytes.length_ofNat 4 _)
    have hdrop : (Bytes.ofNat 4 l.length ++ body ++ r).drop 4 = body ++ r := by
      rw [List.append_assoc]
      exact List.drop_left' (Bytes.length_ofNat 4 _)
    rw [htake, hdrop, Bytes.toNat_ofNat hl, c.readItems_items hbody]
    simp

/-- The number of the type may be known under another form than the one it was written with. -/
theorem decode_at {T : Fin n → Type} (c : (i : Fin n) → Code (T i)) {a : T i}
    (hx : (c i).encode a = some x) (r : Bytes) {j : Nat} (hj : j = i) (h : j < n) :
    (do
      let (b, bs) ← (c ⟨j, h⟩).decode (x ++ r)
      some ((⟨_, b⟩ : (i : Fin n) × T i), bs)) = some (⟨i, a⟩, r) := by
  subst hj
  simp [(c i).decode_encode hx]

/-- A value of one of several types, after the number of its type. -/
def tagged {n : Nat} (hn : n ≤ 256) {T : Fin n → Type} (c : (i : Fin n) → Code (T i)) :
    Code ((i : Fin n) × T i) where
  encode p := do
    let x ← (c p.1).encode p.2
    some (UInt8.ofNat p.1 :: x)
  decode
    | [] => none
    | tag :: bs =>
      if h : tag.toNat < n then do
        let (a, bs) ← (c ⟨tag.toNat, h⟩).decode bs
        some (⟨_, a⟩, bs)
      else none
  decode_encode := by
    rintro ⟨i, a⟩ x hx r
    simp only [Option.bind_eq_bind, Option.bind_eq_some_iff, Option.some.injEq] at hx
    obtain ⟨x, hx, rfl⟩ := hx
    have htag : (UInt8.ofNat i).toNat = i := by
      simp [Nat.mod_eq_of_lt (lt_of_lt_of_le i.isLt hn)]
    dsimp only [List.cons_append]
    rw [dif_pos (by rw [htag]; exact i.isLt)]
    exact decode_at c hx r htag _

/-- An optional value, after a byte that says whether it is there. -/
def option (c : Code α) : Code (Option α) where
  encode
    | none => some [0]
    | some a => do
      let x ← c.encode a
      some (1 :: x)
  decode
    | 0 :: bs => some (none, bs)
    | 1 :: bs => do
      let (a, bs) ← c.decode bs
      some (some a, bs)
    | _ => none
  decode_encode := by
    rintro (_ | a) x hx r
    · cases hx
      rfl
    · simp only [Option.bind_eq_bind, Option.bind_eq_some_iff, Option.some.injEq] at hx
      obtain ⟨x, hx, rfl⟩ := hx
      simp [c.decode_encode hx]

/-! ## Codes of bounded length -/

theorem pair_isSome : (∃ x, (pair c d).encode (a, b) = some x) ↔
      (∃ x, c.encode a = some x) ∧ ∃ x, d.encode b = some x := by
  simp only [pair, Option.bind_eq_bind, Option.bind_eq_some_iff, Option.some.injEq]
  constructor
  · rintro ⟨_, x, hx, y, hy, -⟩
    exact ⟨⟨x, hx⟩, y, hy⟩
  · rintro ⟨⟨x, hx⟩, y, hy⟩
    exact ⟨_, x, hx, y, hy, rfl⟩

theorem isSome_of_items {c : Code α} (h : ∃ x, c.items l = some x) :
    ∀ a ∈ l, ∃ x, c.encode a = some x := by
  induction l with
  | nil => exact fun a ha => absurd ha List.not_mem_nil
  | cons a l ih =>
    simp only [items, Option.bind_eq_bind, Option.bind_eq_some_iff, Option.some.injEq] at h
    obtain ⟨_, x, hx, y, hy, -⟩ := h
    exact List.forall_mem_cons.mpr ⟨⟨x, hx⟩, ih ⟨y, hy⟩⟩

/-- The items of a list that can be written can be written. -/
theorem isSome_of_vec {c : Code α} (h : ∃ x, c.vec.encode l = some x) :
    ∀ a ∈ l, ∃ x, c.encode a = some x := by
  simp only [vec, Option.ite_none_right_eq_some, Option.bind_eq_bind, Option.bind_eq_some_iff] at h
  obtain ⟨_, -, x, hx, -⟩ := h
  exact isSome_of_items ⟨x, hx⟩

end Code

end Lib
