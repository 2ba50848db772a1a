import Trillionnium.Pon.Tagged

/-!
# The work relation

`evaluate` of `pon_work.rs`: a product of two matrices that are masked with noise of low rank, tile
by tile with a transcript of all intermediate values, from which two corrections take the noise off
again. Words are natural numbers, and casts to `u32` are remainders. An addition, multiplication or
subtraction that leaves `u128` and an index out of range end in `Fault.panic`. `evaluate` of
`work_oracle.py` is the same relation on unbounded integers.
-/

namespace Trillionnium.Pon.Work

open Lib

abbrev N : Nat := 64
abbrev R : Nat := 8
abbrev Q : Nat := 4294967291
abbrev CELLS : Nat := 4096

inductive WorkError
  | length
  | version
  | field
  | task
  | transcript
  | product
  | target
  | noiseBudget
  deriving DecidableEq

/-- How a computation of the native code ends without a value. -/
inductive Fault
  | error (e : WorkError)
  | panic
  deriving DecidableEq

/-! ## Checked words -/

def add128 (x y : Nat) : Except Fault Nat := do
  require (x + y < 2 ^ 128) .panic
  return x + y

def mul128 (x y : Nat) : Except Fault Nat := do
  require (x * y < 2 ^ 128) .panic
  return x * y

def sub128 (x y : Nat) : Except Fault Nat := do
  require (y ≤ x) .panic
  return x - y

/-- `values[i]`. -/
def entry (values : List Nat) (i : Nat) : Except Fault Nat := getOr values[i]? .panic

/-- `(x % Q) as u32`. -/
def reduce (x : Nat) : Nat := x % Q % 2 ^ 32

/-! ## Fields -/

def fieldBytes (values : List Nat) : Bytes := values.flatMap (Bytes.ofNat 4)

/-- The words of `chunks_exact(4)`. -/
def words : Bytes → List Nat
  | a :: b :: c :: d :: rest => Bytes.toNat [a, b, c, d] :: words rest
  | _ => []

def validate (values : List Nat) : Except Fault Unit := do
  require (values.length = CELLS) (.error .length)
  require (∀ v ∈ values, v < Q) (.error .field)

/-- The inner loop of `expand`, which ends when there are enough words. -/
def pushWords (len : Nat) : List Nat → List Nat → List Nat
  | out, [] => out
  | out, v :: ws =>
    if v < Q then
      if (out ++ [v]).length = len then out ++ [v] else pushWords len (out ++ [v]) ws
    else pushWords len out ws

section
variable (sha256 : Bytes → Hash)

def taskId (a b : List Nat) : Except Fault Hash := do
  validate a
  validate b
  return hash sha256 "task" [fieldBytes a, fieldBytes b]

def noiseParts (challenge : Hash) (label : UInt8) (counter : Nat) : List Bytes :=
  [challenge.bytes, [label], Bytes.ofNat 4 counter]

/-- The loop of `expand` with the number of hashes that are left of the budget of 128. -/
def expandFrom (challenge : Hash) (label : UInt8) (len : Nat) :
    Nat → List Nat → Except Fault (List Nat)
  | 0, out => if out.length < len then .error (.error .noiseBudget) else .ok out
  | left + 1, out =>
    if out.length < len then
      expandFrom challenge label len left
        (pushWords len out (words (hash sha256 "noise"
          (noiseParts challenge label (127 - left))).bytes))
    else .ok out

def expand (challenge : Hash) (label : UInt8) (len : Nat) : Except Fault (List Nat) :=
  expandFrom sha256 challenge label len 128 []

end

/-! ## Products -/

/-- The innermost loop: the sum goes on over the given indices. -/
def dot (a b : List Nat) (inner cols i j : Nat) (sum : Nat) (ks : List Nat) : Except Fault Nat :=
  ks.foldlM (fun sum k => do
    add128 sum (← mul128 (← entry a (i * inner + k)) (← entry b (k * cols + j)))) sum

def cells (rows cols : Nat) : List (Nat × Nat) :=
  (List.range (rows * cols)).map fun t => (t / cols, t % cols)

def mul (a b : List Nat) (rows inner cols : Nat) : Except Fault (List Nat) :=
  (cells rows cols).mapM fun c =>
    do return reduce (← dot a b inner cols c.1 c.2 0 (List.range inner))

def addEntries (a e : List Nat) : Except Fault (List Nat) :=
  (a.zip e).mapM fun x => do return reduce (← add128 x.1 x.2)

structure TileState where
  cp : List Nat
  transcript : Bytes

/-- The blocks in the order of the loops over `bi`, `bj` and `bk`. -/
def blocks : List (Nat × Nat × Nat) :=
  (List.range (N / R)).flatMap fun bi => (List.range (N / R)).flatMap fun bj =>
    (List.range (N / R)).map fun bk => (bi, bj, bk)

/-- The cells of a block in the order of the loops over `i` and `j`. -/
def blockCells (block : Nat × Nat × Nat) : List (Nat × Nat × Nat) :=
  (List.range' (block.1 * R) R).flatMap fun i => (List.range' (block.2.1 * R) R).map fun j =>
    (i, j, block.2.2)

def tileStep (ap bp : List Nat) (s : TileState) (c : Nat × Nat × Nat) : Except Fault TileState := do
  let start ← entry s.cp (c.1 * N + c.2.1)
  let sum ← dot ap bp N N c.1 c.2.1 start (List.range' (c.2.2 * R) R)
  return ⟨s.cp.set (c.1 * N + c.2.1) (reduce sum), s.transcript ++ Bytes.ofNat 4 (reduce sum)⟩

/-- `x + 2 * Q - y - z`. -/
def correct (x y z : Nat) : Except Fault Nat := do
  let sum ← add128 x (2 * Q)
  let sum ← sub128 sum y
  return reduce (← sub128 sum z)

def traceStart (challenge : Hash) : Bytes := Bytes.ofString "TRNM-PON-TRACE1\x00" ++ challenge.bytes

def evaluate (sha256 : Bytes → Hash) (challenge : Hash) (a b : List Nat) :
    Except Fault (List Nat × Hash) := do
  validate a
  validate b
  let el ← expand sha256 challenge 0 (N * R)
  let er ← expand sha256 challenge 1 (R * N)
  let fl ← expand sha256 challenge 2 (N * R)
  let fr ← expand sha256 challenge 3 (R * N)
  let e ← mul el er N R N
  let f ← mul fl fr N R N
  let ap ← addEntries a e
  let bp ← addEntries b f
  let s ← (blocks.flatMap blockCells).foldlM (tileStep ap bp) ⟨List.replicate CELLS 0,
    traceStart challenge⟩
  let correction1 ← mul (← mul a fl N N R) fr N R N
  let correction2 ← mul el (← mul er bp R N N) N R N
  let product ← ((s.cp.zip correction1).zip correction2).mapM fun x => correct x.1.1 x.1.2 x.2
  return (product, sha256 s.transcript)

/-! ## `work_oracle.py` -/

namespace Oracle

section
variable (sha256 : Bytes → Hash)

def check (a : List Nat) : Except Raised Unit :=
  require (a.length = CELLS ∧ ∀ v ∈ a, v < Q) (.valueError "FIELD")

def taskId (a b : List Nat) : Except Raised Hash := do
  check a
  check b
  H sha256 "task" [fieldBytes a, fieldBytes b]

def expandFrom (c : Hash) (label : UInt8) (n : Nat) : Nat → List Nat → Except Raised (List Nat)
  | 0, out => if out.length < n then .error (.valueError "NOISE_BUDGET") else .ok (out.take n)
  | left + 1, out =>
    if out.length < n then do
      let chunk ← H sha256 "noise" (noiseParts c label (127 - left))
      expandFrom c label n left (out ++ (words chunk.bytes).filter (· < Q))
    else .ok (out.take n)

def expand (c : Hash) (label : UInt8) (n : Nat) : Except Raised (List Nat) :=
  expandFrom sha256 c label n 128 []

/-- The sum of products over some indices. The lists have their lengths wherever it is called. -/
def dot (a b : List Nat) (k m i j : Nat) (ts : List Nat) : Nat :=
  (ts.map fun t => a.getD (i * k + t) 0 * b.getD (t * m + j) 0).sum

def mm (a b : List Nat) (n k m : Nat) : List Nat :=
  (cells n m).map fun c => dot a b k m c.1 c.2 (List.range k) % Q

def addEntries (a e : List Nat) : List Nat := (a.zip e).map fun x => (x.1 + x.2) % Q

/-- A cell of a tile: the new entry is also appended to the tile. -/
def cell (aa bb : List Nat) (s : List Nat × List Nat) (c : Nat × Nat × Nat) : List Nat × List Nat :=
  let value := (s.1.getD (c.1 * N + c.2.1) 0 +
    dot aa bb N N c.1 c.2.1 (List.range' (c.2.2 * R) R)) % Q
  (s.1.set (c.1 * N + c.2.1) value, s.2 ++ [value])

def tile (aa bb : List Nat) (s : TileState) (block : Nat × Nat × Nat) : TileState :=
  let (cp, values) := (blockCells block).foldl (cell aa bb) (s.cp, [])
  ⟨cp, s.transcript ++ fieldBytes values⟩

def evaluate (c : Hash) (a b : List Nat) : Except Raised (List Nat × Hash) := do
  check a
  check b
  let el ← expand sha256 c 0 (N * R)
  let er ← expand sha256 c 1 (N * R)
  let fl ← expand sha256 c 2 (N * R)
  let fr ← expand sha256 c 3 (N * R)
  let e := mm el er N R N
  let f := mm fl fr N R N
  let aa := addEntries a e
  let bb := addEntries b f
  let s := blocks.foldl (tile aa bb) ⟨List.replicate CELLS 0, traceStart c⟩
  let c1 := mm (mm a fl N N R) fr N R N
  let c2 := mm el (mm er bb R N N) N R N
  -- the remainder of an integer is not negative
  let product := ((s.cp.zip c1).zip c2).map fun x =>
    (((x.1.1 : Int) - x.1.2 - x.2) % (Q : Int)).toNat
  return (product, sha256 s.transcript)

end

end Oracle

end Trillionnium.Pon.Work
