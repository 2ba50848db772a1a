import Mathlib.Data.String.Basic
import Trillionnium.Lib.Bytes
import Trillionnium.Lib.Delta
import Trillionnium.Lib.Durable
import Trillionnium.Ledger.Work

/-!
# The block store

The tables of the reference ledger and the procedures that write them: admission of a block,
activation of a heavier tip, and recovery of a reorganisation that was stopped. Identifiers, stored
values, hashes and byte strings are abstract: `Id` for block identifiers, `V` for values, `R` for
the other hashes, `B` for transactions, receipts and proofs. A table row set that is read as a whole
is a finite map, and `BEGIN IMMEDIATE … COMMIT` is one transaction: an exception inside it rolls
back.
-/

namespace Trillionnium.Ledger

open Lib

/-- A block header; the target is read as a big-endian number. -/
structure Header (Id R : Type) where
  network : R
  parameters : R
  parent : Id
  height : Nat
  timestamp : Nat
  target : Nat
  miner : R
  transactions : R
  state : R
  receipts : R
  workTask : R
  nonce : Nat
  deriving DecidableEq

/-- The columns `header`, `body` and `proof` of a block, and what a peer offers for admission. -/
structure Content (Id R B : Type) where
  header : Header Id R
  body : List B
  proof : B
  deriving DecidableEq

/-- A row of `blocks`. The genesis has no content. -/
structure Block (Id R B : Type) where
  parent : Option Id
  height : Nat
  chainwork : Bytes
  content : Option (Content Id R B)
  stateRoot : R

def Block.work {Id R B : Type} (b : Block Id R B) : Nat := b.chainwork.toNatBE

/-- What the ledger calls: hashes, codecs, the work relation and the execution of a block. -/
structure Rules (Id V R B : Type) where
  params : Params
  network : R
  parameters : R
  genesis : Id
  /-- `genesis_state()`. -/
  origin : OrdMap String V
  stateRoot : OrdMap String V → R
  sequenceRoot : String → List B → R
  /-- `H('block', hb, proof[-32:])`. -/
  blockId : Header Id R → B → Id
  size : B → Nat
  txDecode : B → Except String Unit
  verifyWork : Header Id R → B → Except String Unit
  /-- `prior.get('work:'+h['work_task'].hex()) is True`. -/
  openTask : OrdMap String V → R → Bool
  /-- `execute(parent,transactions,height,miner,parent_id)`. -/
  execute : OrdMap String V → List B → Nat → R → Id → Except String (OrdMap String V × List B)

inductive Kind where
  | detach | attach
  deriving DecidableEq

/-- The row of `reorg`. -/
structure Intent (Id : Type) where
  oldTip : Id
  newTip : Id
  generation : Nat
  steps : List (Kind × Id)
  position : Nat
  done : Bool

/-- The database. `kv` is grouped by generation; `tip`, `generation` and `slot` are the row of
`active`. -/
structure Store (Id V R B : Type) [LinearOrder Id] where
  blocks : OrdMap Id (Block Id R B)
  deltas : OrdMap Id (Delta String V)
  tip : Id
  generation : Nat
  slot : Nat
  kv : Nat → OrdMap String V
  reorg : Option (Intent Id)
  events : OrdMap (Nat ×ₗ Nat) (Kind × Id)
  snapshots : OrdMap Id (OrdMap String V)

variable {Id V R B : Type} [LinearOrder Id] [DecidableEq V] [DecidableEq R] [DecidableEq B]

namespace Store

def block (db : Store Id V R B) (id : Id) : Except Fault (Block Id R B) :=
  match db.blocks.get id with
  | some b => .ok b
  | none => .error .unknownParent

def delta (db : Store Id V R B) (id : Id) : Delta String V := (db.deltas.get id).getD ∅

def pending (db : Store Id V R B) : Option (Intent Id) := db.reorg.filter fun r => !r.done

def ready (db : Store Id V R B) : Except Fault Unit := check db.pending.isNone .reorgInProgress

def readActive (rootOf : OrdMap String V → R) (db : Store Id V R B) :
    Except Fault (Id × Nat × OrdMap String V) := do
  let b ← db.block db.tip
  check (rootOf (db.kv db.slot) = b.stateRoot) .root
  pure (db.tip, db.generation, db.kv db.slot)

def applyDelta (db : Store Id V R B) (id : Id) (slot : Nat) (detach : Bool) :
    Except Fault (Store Id V R B) :=
  match Delta.patch detach (db.delta id) (db.kv slot) with
  | some m => .ok { db with kv := Function.update db.kv slot m }
  | none => .error .undoRoot

def insertEvent (db : Store Id V R B) (g i : Nat) (e : Kind × Id) : Except Fault (Store Id V R B) :=
  match db.events.get (toLex (g, i)) with
  | some _ => .error .integrity
  | none => .ok { db with events := db.events.insert (toLex (g, i)) e }

/-- `for i,(kind,b) in enumerate(steps)`, from `i` on. -/
def insertEvents (db : Store Id V R B) (g : Nat) :
    Nat → List (Kind × Id) → Except Fault (Store Id V R B)
  | _, [] => .ok db
  | i, e :: steps => do
    let db ← db.insertEvent g i e
    db.insertEvents g (i + 1) steps

end Store

/-! ## Activation -/

/-- The parent of a block on the way down; the loop would look up the block `None` next. -/
def parentOf (b : Block Id R B) : Except Fault Id :=
  match b.parent with
  | some p => .ok p
  | none => .error .unknownParent

/-- `while left!=right` of `Ledger.activate`; `fuel` counts the heights down. -/
def fork (db : Store Id V R B) :
    Nat → Id → Id → List Id → List Id → Except Fault (List Id × List Id)
  | fuel, left, right, detach, attach =>
    if left = right then .ok (detach, attach)
    else
      match fuel with
      | 0 => .error .endless
      | fuel + 1 => do
        let l ← db.block left
        let r ← db.block right
        if r.height ≤ l.height then do
          let p ← parentOf l
          fork db fuel p right (detach ++ [left]) attach
        else do
          let p ← parentOf r
          fork db fuel left p detach (attach ++ [right])

/-- The steps from one tip to another. -/
def stepsBetween (db : Store Id V R B) (old target : Id) : Except Fault (List (Kind × Id)) := do
  let o ← db.block old
  let t ← db.block target
  let (detach, attach) ← fork db (o.height + t.height) old target [] []
  pure (detach.map (Prod.mk .detach) ++ attach.reverse.map (Prod.mk .attach))

/-- The transaction of an ordinary extension. -/
def extendTip (rootOf : OrdMap String V → R) (target : Id) (slot g : Nat) (db : Store Id V R B) :
    Except Fault (Store Id V R B) := do
  let db ← db.applyDelta target slot false
  let t ← db.block target
  check (rootOf (db.kv slot) = t.stateRoot) .root
  let db := { db with tip := target, generation := g + 1 }
  db.insertEvent (g + 1) 0 (.attach, target)

/-- The transaction that writes the intent: a copy of the active slot and the steps. -/
def openIntent (old target : Id) (g : Nat) (steps : List (Kind × Id)) (db : Store Id V R B) :
    Store Id V R B :=
  let emptied := Function.update db.kv (g + 1) ∅
  { db with
    kv := Function.update emptied (g + 1) (emptied db.slot)
    reorg := some ⟨old, target, g + 1, steps, 0, false⟩ }

/-- The transaction of one step. -/
def stageStep (g index : Nat) (step : Kind × Id) (db : Store Id V R B) :
    Except Fault (Store Id V R B) := do
  let db ← db.applyDelta step.2 g (step.1 = .detach)
  pure { db with reorg := db.reorg.map fun r => { r with position := index + 1 } }

/-- The transaction that publishes the staged slot. -/
def publish (r : Intent Id) (db : Store Id V R B) : Except Fault (Store Id V R B) := do
  let db := { db with tip := r.newTip, generation := r.generation, slot := r.generation }
  let db ← db.insertEvents r.generation 0 r.steps
  pure { db with
    reorg := db.reorg.map fun r => { r with done := true }
    kv := fun i => if i = r.generation then db.kv i else ∅ }

/-- `for index in range(pos,len(steps))` of `Ledger._recover_intent`. -/
def replay (g : Nat) : Nat → List (Kind × Id) → Proc Fault (Store Id V R B) Unit
  | _, [] => pure ()
  | index, step :: steps => do
    Proc.transact (stageStep g index step)
    replay g (index + 1) steps

/-- The root check before publication. -/
def checkStaged (rootOf : OrdMap String V → R) (r : Intent Id) (db : Store Id V R B) :
    Except Fault Unit := do
  let t ← db.block r.newTip
  check (rootOf (db.kv r.generation) = t.stateRoot) .root

def recoverIntent (rootOf : OrdMap String V → R) : Proc Fault (Store Id V R B) Id := do
  let row ← Proc.query fun db => .ok db.pending
  match row with
  | none => Proc.query fun db => .ok db.tip
  | some r => do
    Proc.query fun db => check (db.tip = r.oldTip ∧ db.generation + 1 = r.generation) .generation
    replay r.generation r.position (r.steps.drop r.position)
    Proc.query (checkStaged rootOf r)
    Proc.transact (publish r)
    pure r.newTip

/-- The part of `Ledger.activate` after the pending intent; with a `cut` the fast path is not
taken. -/
def switchTo (rootOf : OrdMap String V → R) (target : Id) (cut : Bool) :
    Proc Fault (Store Id V R B) Id := do
  let (old, g, slot) ← Proc.query fun db => .ok (db.tip, db.generation, db.slot)
  let t ← Proc.query fun db => db.block target
  let o ← Proc.query fun db => db.block old
  if t.work ≤ o.work then pure old
  else if t.parent = some old ∧ cut = false then do
    Proc.transact (extendTip rootOf target slot g)
    pure target
  else do
    let steps ← Proc.query fun db => stepsBetween db old target
    Proc.transact fun db => .ok (openIntent old target g steps db)
    recoverIntent rootOf

def activate (rootOf : OrdMap String V → R) (target : Id) (cut : Bool) :
    Proc Fault (Store Id V R B) Id := do
  let row ← Proc.query fun db => .ok db.pending
  match row with
  | none => switchTo rootOf target cut
  | some _ => do
    let _ ← recoverIntent rootOf
    switchTo rootOf target cut

/-- The heavier of two rows, by `ORDER BY chainwork DESC,height,id`. -/
def heavier (x y : Id × Block Id R B) : Bool :=
  y.2.chainwork < x.2.chainwork ||
    x.2.chainwork = y.2.chainwork &&
      (x.2.height < y.2.height || x.2.height = y.2.height && x.1 < y.1)

def best (db : Store Id V R B) : Option (Id × Block Id R B) :=
  db.blocks.entries.foldl (fun acc x =>
    match acc with
    | none => some x
    | some y => some (if heavier x y then x else y)) none

/-- The part of `Ledger.recover` after the pending intent. -/
def followBest (rootOf : OrdMap String V → R) (cut : Bool) : Proc Fault (Store Id V R B) Id := do
  let found ← Proc.query fun db => .ok (best db)
  let b ← Proc.query fun db => db.block db.tip
  match found with
  | none => Proc.query fun db => .ok db.tip
  | some x =>
    if b.chainwork < x.2.chainwork then do
      let _ ← activate rootOf x.1 cut
      Proc.query fun db => .ok db.tip
    else Proc.query fun db => .ok db.tip

def recover (rootOf : OrdMap String V → R) (cut : Bool) : Proc Fault (Store Id V R B) Id := do
  let _ ← recoverIntent rootOf
  followBest rootOf cut

/-! ## Admission -/

/-- The walk of `Ledger.state_at` down to a snapshot, and the blocks above it, lowest first. -/
def ancestry (rootOf : OrdMap String V → R) (db : Store Id V R B) :
    Nat → Id → List Id → Except Fault (OrdMap String V × List Id)
  | fuel, cur, path => do
    let row ← db.block cur
    match db.snapshots.get cur with
    | some state => do
      check (rootOf state = row.stateRoot) .root
      pure (state, path)
    | none =>
      match fuel with
      | 0 => .error .endless
      | fuel + 1 =>
        match row.parent with
        | none => .error .height
        | some p => do
          let bp ← db.block p
          check (bp.height + 1 = row.height) .height
          ancestry rootOf db fuel p (cur :: path)

/-- One block of the replay of `Ledger.state_at`. -/
def replayBlock (rootOf : OrdMap String V → R) (db : Store Id V R B) (state : OrdMap String V)
    (id : Id) : Except Fault (OrdMap String V) :=
  match Delta.patch false (db.delta id) state with
  | none => .error .undoRoot
  | some state => do
    let b ← db.block id
    check (rootOf state = b.stateRoot) .root
    pure state

def stateAt (rootOf : OrdMap String V → R) (db : Store Id V R B) (tip : Id) :
    Except Fault (OrdMap String V) :=
  if tip = db.tip then do
    let (_, _, state) ← db.readActive rootOf
    pure state
  else do
    let b ← db.block tip
    let (state, path) ← ancestry rootOf db b.height tip []
    path.foldlM (replayBlock rootOf db) state

/-- The time and the target of a header, as `ancestor_headers` returns them. -/
structure Stamp where
  timestamp : Nat
  target : Nat

/-- What `header_decode` finds in a row. -/
def stampOf (b : Block Id R B) : Except Fault Stamp :=
  match b.content with
  | some x => .ok ⟨x.header.timestamp, x.header.target⟩
  | none => .error .noHeader

/-- What stands in for the header of the genesis. -/
def Params.standIn (params : Params) : Stamp := ⟨params.genesisTimestamp, params.initialTarget⟩

/-- `while` of `Ledger.ancestor_headers`, with `count` headers still to be read. -/
def headersFrom (rules : Rules Id V R B) (db : Store Id V R B) :
    Nat → Option Id → Except Fault (List Stamp)
  | 0, parent => .ok (if parent = some rules.genesis then [rules.params.standIn] else [])
  | count + 1, parent =>
    if parent = some rules.genesis then .ok [rules.params.standIn]
    else
      match parent with
      | none => .error .unknownParent
      | some p => do
        let row ← db.block p
        let stamp ← stampOf row
        let rest ← headersFrom rules db count row.parent
        pure (stamp :: rest)

def ancestorHeaders (rules : Rules Id V R B) (db : Store Id V R B) (parent : Id) :
    Except Fault (List Stamp) :=
  headersFrom rules db (max rules.params.retargetInterval rules.params.medianTimeWidth)
    (some parent)

/-- `headers[i]`. -/
def headerAt (headers : List Stamp) (i : Nat) : Except Fault Stamp :=
  match headers[i]? with
  | some h => .ok h
  | none => .error .noHeader

def targetOver (rules : Rules Id V R B) (db : Store Id V R B) (parent : Id) : Except Fault Nat := do
  let row ← db.block parent
  let headers ← ancestorHeaders rules db parent
  let last ← headerAt headers 0
  if (row.height + 1) % rules.params.retargetInterval = 0 then do
    let first ← headerAt headers (rules.params.retargetInterval - 1)
    retarget last.target first.timestamp last.timestamp rules.params.retargetInterval
      rules.params.targetSpacing rules.params.powLimit
  else pure last.target

/-- The checkpoints kept: the genesis and the 64 highest. -/
def keepSnapshots (genesis : Id) (blocks : OrdMap Id (Block Id R B))
    (snapshots : OrdMap Id (OrdMap String V)) : OrdMap Id (OrdMap String V) :=
  let rows := snapshots.keys.filterMap fun id => (blocks.get id).map fun b => (id, b.height)
  let sorted := rows.insertionSort fun x y => y.2 < x.2 ∨ x.2 = y.2 ∧ x.1 ≤ y.1
  let kept := (sorted.take 64).map Prod.fst
  snapshots.filter fun id _ => id = genesis ∨ id ∈ kept

/-- The transaction of an admission. -/
def insertBlock (rules : Rules Id V R B) (id : Id) (x : Content Id R B)
    (prior state : OrdMap String V) (chainwork : Nat) (db : Store Id V R B) : Store Id V R B :=
  let blocks := db.blocks.insert id
    ⟨some x.header.parent, x.header.height, Bytes.ofNatBE 64 chainwork, some x, x.header.state⟩
  { db with
    blocks
    deltas := db.deltas.insert id (Delta.diff prior state)
    snapshots :=
      if x.header.height % 128 = 0 then
        keepSnapshots rules.genesis blocks (db.snapshots.insert id state)
      else db.snapshots }

/-- An exception of a called function. -/
def called {α : Type} : Except String α → Except Fault α
  | .ok a => .ok a
  | .error code => .error (.rejected code)

/-- The checks of `Ledger.admit` on the packet alone. -/
def checkPacket (rules : Rules Id V R B) (x : Content Id R B) : Except Fault Unit := do
  check (x.body.length ≤ rules.params.maxTransactions) .limit
  check (∀ tx ∈ x.body, 159 ≤ rules.size tx ∧ rules.size tx ≤ rules.params.maxTransactionBytes)
    .limit
  check (318 + 2 + (x.body.map fun tx => 2 + rules.size tx).sum + rules.size x.proof ≤
    rules.params.maxBlockBytes) .limit
  check (x.header.network = rules.network ∧ x.header.parameters = rules.parameters) .network
  check (rules.size x.proof = rules.params.proofBytes) .workLength

/-- The times of the latest ancestors, oldest first, against the clock. -/
def checkTime (rules : Rules Id V R B) (h : Header Id R) (headers : List Stamp) (now : Nat) :
    Except Fault Unit :=
  let times := ((headers.take rules.params.medianTimeWidth).map Stamp.timestamp).reverse
  match timestampState h.timestamp times now rules.params.futureSkew with
  | .deferredFuture => .error .timeDeferred
  | .invalidMedian => .error .time
  | .admissible => .ok ()

/-- The part of `Ledger.admit` that reads the store: the state before the block, the state after it
and the chainwork. -/
def prepareBlock (rules : Rules Id V R B) (x : Content Id R B) (now : Nat) (db : Store Id V R B) :
    Except Fault (OrdMap String V × OrdMap String V × Nat) := do
  let h := x.header
  let parent ← db.block h.parent
  check (h.height = parent.height + 1) .height
  let target ← targetOver rules db h.parent
  check (h.target = target) .target
  let headers ← ancestorHeaders rules db h.parent
  checkTime rules h headers now
  let prior ← stateAt rules.stateRoot db h.parent
  check (rules.openTask prior h.workTask = true) .task
  check (h.transactions = rules.sequenceRoot "transactions" x.body) .root
  called (rules.verifyWork h x.proof)
  let (state, receipts) ← called (rules.execute prior x.body h.height h.miner h.parent)
  check (h.state = rules.stateRoot state ∧ h.receipts = rules.sequenceRoot "receipts" receipts)
    .root
  let score ← work h.target
  check (parent.work + score < 2 ^ 512) .limit
  pure (prior, state, parent.work + score)

def admitBlock (rules : Rules Id V R B) (x : Content Id R B) (now : Nat) :
    Proc Fault (Store Id V R B) Id := do
  Proc.query Store.ready
  Proc.query fun _ => checkPacket rules x
  let id := rules.blockId x.header x.proof
  let existing ← Proc.query fun db => .ok (db.blocks.get id)
  match existing with
  | some row => do
    Proc.query fun _ => check (row.content = some x) .duplicateContent
    pure id
  | none => do
    Proc.query fun _ => called (x.body.forM rules.txDecode)
    let (prior, state, chainwork) ← Proc.query (prepareBlock rules x now)
    Proc.transact fun db => .ok (insertBlock rules id x prior state chainwork db)
    pure id

/-- The store that `Ledger.__init__` creates. -/
def initial (rules : Rules Id V R B) : Store Id V R B where
  blocks := OrdMap.insert ∅ rules.genesis
    ⟨none, 0, Bytes.ofNatBE 64 0, none, rules.stateRoot rules.origin⟩
  deltas := ∅
  tip := rules.genesis
  generation := 0
  slot := 0
  kv := Function.update (fun _ => ∅) 0 rules.origin
  reorg := none
  events := ∅
  snapshots := OrdMap.insert ∅ rules.genesis rules.origin

end Trillionnium.Ledger
