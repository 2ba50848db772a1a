import Trillionnium.Ledger.Store

/-!
# Reorganisations

The states of the stored blocks are given by a function `st`, and a store is sound for it if every
block holds the exact delta from its parent's state. The active slot holds the state of the tip; a
pending intent holds, in the next slot, the state of the block its steps have come to. Each commit
of a recovery keeps this, and leaves what the next recovery goes on from.
-/

namespace Trillionnium.Ledger

open Lib

variable {Id V R B : Type} [LinearOrder Id]

/-- The stored block `id` stands over the block `p`, with the state that its execution makes of that
of `p`. -/
structure Extends [DecidableEq V] (rules : Rules Id V R B) (db : Store Id V R B)
    (st : Id → OrdMap String V) (id : Id) (b : Block Id R B) (p : Id) (bp : Block Id R B)
    (x : Content Id R B) : Prop where
  parent : b.parent = some p
  below : db.blocks.get p = some bp
  content : b.content = some x
  header_parent : x.header.parent = p
  height : x.header.height = b.height ∧ b.height = bp.height + 1
  delta : db.delta id = Delta.diff (st p) (st id)
  executed : ∃ receipts, rules.execute (st p) x.body b.height x.header.miner p =
    .ok (st id, receipts)
  target : targetOver rules db p = .ok x.header.target
  work : ∃ score, work x.header.target = .ok score ∧ b.work = bp.work + score

/-- Every block but the genesis stands over another. -/
structure Sound [DecidableEq V] (rules : Rules Id V R B) (db : Store Id V R B)
    (st : Id → OrdMap String V) : Prop where
  base : ∃ b, db.blocks.get rules.genesis = some b ∧ b.parent = none ∧ b.height = 0 ∧
    b.content = none
  origin_eq : st rules.genesis = rules.origin
  linked : ∀ id b, db.blocks.get id = some b → id ≠ rules.genesis →
    ∃ p bp x, Extends rules db st id b p bp x
  root : ∀ id b, db.blocks.get id = some b → b.stateRoot = rules.stateRoot (st id)
  wide : ∀ id b, db.blocks.get id = some b → b.chainwork.length = 64
  checkpoint : db.snapshots.get rules.genesis ≠ none
  snapshot : ∀ id m, db.snapshots.get id = some m → m = st id ∧ db.blocks.get id ≠ none

/-- The published slot holds the state of the tip. -/
structure Active (db : Store Id V R B) (st : Id → OrdMap String V) : Prop where
  tip : ∃ b, db.blocks.get db.tip = some b
  slot_le : db.slot ≤ db.generation
  slot_eq : db.kv db.slot = st db.tip
  events : ∀ g i, db.generation < g → db.events.get (toLex (g, i)) = none

/-- Steps from one block to another. -/
inductive Moves (db : Store Id V R B) : Id → List (Kind × Id) → Id → Prop where
  | nil {a : Id} : Moves db a [] a
  | detach {a p t : Id} {b : Block Id R B} {steps : List (Kind × Id)}
      (hb : db.blocks.get a = some b) (hp : b.parent = some p) (h : Moves db p steps t) :
        Moves db a ((.detach, a) :: steps) t
  | attach {a x t : Id} {b : Block Id R B} {steps : List (Kind × Id)}
      (hb : db.blocks.get x = some b) (hp : b.parent = some a) (h : Moves db x steps t) :
        Moves db a ((.attach, x) :: steps) t

/-- The intent waits at its position, with the state of the block it has come to in its slot. -/
structure Staged (db : Store Id V R B) (st : Id → OrdMap String V) (r : Intent Id) : Prop where
  row : db.reorg = some r
  staging : r.done = false
  old : db.tip = r.oldTip
  generation : db.generation + 1 = r.generation
  heavier : ∃ o t, db.blocks.get r.oldTip = some o ∧ db.blocks.get r.newTip = some t ∧
    o.work < t.work
  path : ∃ mid, Moves db mid (r.steps.drop r.position) r.newTip ∧ db.kv r.generation = st mid

section
variable {rules : Rules Id V R B} {rootOf : OrdMap String V → R} {db db' : Store Id V R B}
  {st : Id → OrdMap String V} {r : Intent Id} {a t : Id} {steps steps' : List (Kind × Id)}

theorem Store.block_ok : db.block a = .ok b ↔ db.blocks.get a = some b := by
  unfold Store.block
  cases db.blocks.get a <;> simp

/-! ## Frames -/

theorem Moves.of_eq (h : Moves db a steps t) (hb : db'.blocks = db.blocks) :
    Moves db' a steps t := by
  induction h with
  | nil => exact .nil
  | detach hblock hp _ ih => exact .detach (hb ▸ hblock) hp ih
  | attach hblock hp _ ih => exact .attach (hb ▸ hblock) hp ih

theorem Moves.append (h : Moves db a steps m) (h' : Moves db m steps' t) :
    Moves db a (steps ++ steps') t := by
  induction h with
  | nil => exact h'
  | detach hb hp _ ih => exact .detach hb hp (ih h')
  | attach hb hp _ ih => exact .attach hb hp (ih h')

theorem Store.insertEvents_ok {g i : Nat} (h : ∀ j, i ≤ j → db.events.get (toLex (g, j)) = none) :
    ∃ events, db.insertEvents g i steps = .ok { db with events } ∧
      ∀ g' j, g' ≠ g → events.get (toLex (g', j)) = db.events.get (toLex (g', j)) := by
  induction steps generalizing db i with
  | nil => exact ⟨db.events, rfl, fun _ _ _ => rfl⟩
  | cons e steps ih =>
    have hlater : ∀ j, i + 1 ≤ j →
        (db.events.insert (toLex (g, i)) e).get (toLex (g, j)) = none := fun j hj => by
      rw [OrdMap.get_insert_ne (fun he => by cases he; omega), h j (by omega)]
    obtain ⟨events, hinsert, hget⟩ :=
      @ih { db with events := db.events.insert (toLex (g, i)) e } (i + 1) hlater
    refine ⟨events, ?_, fun g' j hne => ?_⟩
    · simp only [Store.insertEvents, Store.insertEvent, h i le_rfl, bind, Except.bind, hinsert]
    · rw [hget g' j hne]
      exact OrdMap.get_insert_ne fun he => hne (by cases he; rfl)

theorem Store.pending_eq_some : db.pending = some r ↔ db.reorg = some r ∧ r.done = false := by
  unfold Store.pending
  cases db.reorg <;> simp [Option.filter_eq_some_iff]

theorem Staged.pending (h : Staged db st r) : db.pending = some r :=
  Store.pending_eq_some.mpr ⟨h.row, h.staging⟩

theorem Active.slot_ne (h : Active db st) (hr : Staged db st r) : db.slot ≠ r.generation := by
  have := h.slot_le
  have := hr.generation
  omega

variable (hkeeps : ∀ id b, db.blocks.get id = some b → db'.blocks.get id = some b)
include hkeeps

/-- What is read on the way down does not change as blocks are added. -/
theorem headersFrom_mono (h : headersFrom rules db count parent = .ok headers) :
    headersFrom rules db' count parent = .ok headers := by
  induction count generalizing parent headers with
  | zero => simpa only [headersFrom] using h
  | succ count ih =>
    obtain _ | p := parent
    · exact h
    rw [headersFrom] at h ⊢
    split at h
    · rename_i hgenesis
      rw [if_pos hgenesis]
      exact h
    · rename_i hgenesis
      rw [if_neg hgenesis]
      cases hrow : db.blocks.get p with
      | none =>
        have hblock : db.block p = .error .unknownParent := by rw [Store.block, hrow]
        simp only [hblock, bind, Except.bind, reduceCtorEq] at h
      | some row =>
        simp only [Store.block_ok.mpr hrow, Store.block_ok.mpr (hkeeps p row hrow), bind,
          Except.bind] at h ⊢
        cases hstamp : stampOf row with
        | error e => simp only [hstamp, reduceCtorEq] at h
        | ok stamp =>
          simp only [hstamp] at h ⊢
          cases hrest : headersFrom rules db count row.parent with
          | error e => simp only [hrest, reduceCtorEq] at h
          | ok rest =>
            rw [hrest] at h
            rw [ih hrest]
            exact h

theorem targetOver_mono (h : targetOver rules db p = .ok n) : targetOver rules db' p = .ok n := by
  cases hrow : db.blocks.get p with
  | none =>
    have hblock : db.block p = .error .unknownParent := by rw [Store.block, hrow]
    simp only [targetOver, hblock, bind, Except.bind, reduceCtorEq] at h
  | some row =>
    simp only [targetOver, Store.block_ok.mpr hrow, Store.block_ok.mpr (hkeeps p row hrow), bind,
      Except.bind] at h ⊢
    cases hheaders : ancestorHeaders rules db p with
    | error e => simp only [hheaders, reduceCtorEq] at h
    | ok headers =>
      have hheaders' : ancestorHeaders rules db' p = .ok headers := headersFrom_mono hkeeps hheaders
      rw [hheaders] at h
      rw [hheaders']
      exact h

theorem Extends.of_eq [DecidableEq V] {id p : Id} (h : Extends rules db st id b p bp x)
    (hdelta : db'.delta id = db.delta id) (hid : st' id = st id) (hp : st' p = st p) :
    Extends rules db' st' id b p bp x where
  parent := h.parent
  below := hkeeps p bp h.below
  content := h.content
  header_parent := h.header_parent
  height := h.height
  delta := by rw [hdelta, h.delta, hid, hp]
  executed := by rw [hid, hp]; exact h.executed
  target := targetOver_mono hkeeps h.target
  work := h.work

omit hkeeps

variable [DecidableEq V] (h : Sound rules db st)
include h

theorem Sound.of_eq (hb : db'.blocks = db.blocks)
    (hd : db'.deltas = db.deltas) (hs : db'.snapshots = db.snapshots) : Sound rules db' st where
  base := hb ▸ h.base
  origin_eq := h.origin_eq
  linked id b hid hne := by
    obtain ⟨p, bp, x, hx⟩ := h.linked id b (hb ▸ hid) hne
    exact ⟨p, bp, x, hx.of_eq (fun _ _ hk => hb ▸ hk) (by rw [Store.delta, hd, Store.delta]) rfl
      rfl⟩
  root id b hid := h.root id b (hb ▸ hid)
  wide id b hid := h.wide id b (hb ▸ hid)
  checkpoint := hs ▸ h.checkpoint
  snapshot id m hid := hb ▸ h.snapshot id m (hs ▸ hid)

/-! ## Genesis -/

/-- The parent column points to the block below. -/
theorem Sound.parent (hb : db.blocks.get a = some b) (hp : b.parent = some p) :
    ∃ bp x, Extends rules db st a b p bp x := by
  have hne : a ≠ rules.genesis := by
    rintro rfl
    obtain ⟨b', hb', hnone, -⟩ := h.base
    rw [hb] at hb'
    cases hb'
    rw [hp] at hnone
    cases hnone
  obtain ⟨p', bp, x, hx⟩ := h.linked a b hb hne
  have hparent := hx.parent
  rw [hp] at hparent
  cases hparent
  exact ⟨bp, x, hx⟩

theorem Sound.eq_genesis
    (hb : db.blocks.get a = some b) (hzero : b.height = 0) : a = rules.genesis := by
  by_contra hne
  obtain ⟨_, _, _, hx⟩ := h.linked a b hb hne
  have := hx.height.2
  omega

/-! ## Steps -/

/-- A step takes the slot from the state of one block to that of the next. -/
theorem Sound.applyDelta (hmoves : Moves db a (step :: steps) t) (hkv : db.kv g = st a) :
    ∃ m, Moves db m steps t ∧ db.applyDelta step.2 g (step.1 = .detach) =
      .ok { db with kv := Function.update db.kv g (st m) } := by
  cases hmoves with
  | @detach _ p _ _ _ hb hp hrest =>
    obtain ⟨_, _, hx⟩ := h.parent hb hp
    refine ⟨p, hrest, ?_⟩
    simp only [Store.applyDelta, decide_true, hx.delta, hkv, Delta.detach_diff]
  | @attach _ x _ _ _ hb hp hrest =>
    obtain ⟨_, _, hx⟩ := h.parent hb hp
    refine ⟨x, hrest, ?_⟩
    simp only [Store.applyDelta, reduceCtorEq, decide_false, hx.delta, hkv, Delta.attach_diff]

theorem Sound.fork {l r : Block Id R B} (hl : db.blocks.get left = some l)
    (hr : db.blocks.get right = some r) (hfuel : l.height + r.height ≤ fuel)
    (hdetach : Moves db old (detach.map (Prod.mk .detach)) left)
    (hattach : Moves db right (attach.reverse.map (Prod.mk .attach)) target) :
    ∃ d a, fork db fuel left right detach attach = .ok (d, a) ∧
      Moves db old (d.map (Prod.mk .detach) ++ a.reverse.map (Prod.mk .attach)) target := by
  induction fuel generalizing left right l r detach attach with
  | zero =>
    obtain rfl := h.eq_genesis hl (by omega)
    obtain rfl := h.eq_genesis hr (by omega)
    exact ⟨detach, attach, by rw [Ledger.fork, if_pos rfl], hdetach.append hattach⟩
  | succ fuel ih =>
    by_cases he : left = right
    · subst he
      exact ⟨detach, attach, by rw [Ledger.fork, if_pos rfl], hdetach.append hattach⟩
    by_cases hle : r.height ≤ l.height
    · -- the left block is higher, or both are equally high and not the genesis
      have hne : left ≠ rules.genesis := by
        rintro rfl
        obtain ⟨b, hb, -, hzero, -⟩ := h.base
        rw [hl] at hb
        cases hb
        exact he (h.eq_genesis hr (by omega)).symm
      obtain ⟨p, bp, _, hx⟩ := h.linked left l hl hne
      have hheight := hx.height.2
      have hp := hx.parent
      have hdetach' : Moves db old ((detach ++ [left]).map (Prod.mk .detach)) p := by
        rw [List.map_append]
        exact hdetach.append (.detach hl hp .nil)
      obtain ⟨d, a, hfork, hmoves⟩ := ih hx.below hr (by omega) hdetach' hattach
      refine ⟨d, a, ?_, hmoves⟩
      rw [Ledger.fork, if_neg he]
      simp only [Store.block_ok.mpr hl, Store.block_ok.mpr hr, bind, Except.bind, hle, if_true,
        parentOf, hp, hfork]
    · have hne : right ≠ rules.genesis := by
        rintro rfl
        obtain ⟨b, hb, -, hzero, -⟩ := h.base
        rw [hr] at hb
        cases hb
        omega
      obtain ⟨p, bp, _, hx⟩ := h.linked right r hr hne
      have hheight := hx.height.2
      have hp := hx.parent
      have hattach' : Moves db p ((attach ++ [right]).reverse.map (Prod.mk .attach)) target := by
        rw [List.reverse_append, List.reverse_singleton, List.singleton_append, List.map_cons]
        exact .attach hr hp hattach
      obtain ⟨d, a, hfork, hmoves⟩ := ih hl hx.below (by omega) hdetach hattach'
      refine ⟨d, a, ?_, hmoves⟩
      rw [Ledger.fork, if_neg he]
      simp only [Store.block_ok.mpr hl, Store.block_ok.mpr hr, bind, Except.bind, hle, if_false,
        parentOf, hp, hfork]

theorem Sound.stepsBetween
    {o b : Block Id R B} (ho : db.blocks.get old = some o) (hb : db.blocks.get target = some b) :
    ∃ steps, stepsBetween db old target = .ok steps ∧ Moves db old steps target := by
  have hdetach : Moves db old (([] : List Id).map (Prod.mk .detach)) old := .nil
  have hattach : Moves db target (([] : List Id).reverse.map (Prod.mk .attach)) target := .nil
  obtain ⟨d, a, hfork, hmoves⟩ := h.fork ho hb le_rfl hdetach hattach
  refine ⟨_, ?_, hmoves⟩
  simp only [Ledger.stepsBetween, Store.block_ok.mpr ho, Store.block_ok.mpr hb, bind, Except.bind,
    hfork, pure, Except.pure]

omit h

/-! ## Commits -/

variable (rules st) in
/-- A store with the blocks `blocks` on its way from the tip `old` to `target`: the steps are
pending, or published. -/
inductive Heading (blocks : OrdMap Id (Block Id R B)) (old target : Id) (db : Store Id V R B) :
    Prop where
  | staging {r : Intent Id} (hsound : Sound rules db st) (hactive : Active db st)
      (hblocks : db.blocks = blocks) (hr : Staged db st r) (hold : r.oldTip = old)
      (htarget : r.newTip = target)
  | published (hsound : Sound rules db st) (hactive : Active db st) (hblocks : db.blocks = blocks)
      (hdone : db.pending = none) (htip : db.tip = target)

/-- A staged intent makes its next step. -/
theorem Staged.stageStep (hr : Staged db st r) (hsound : Sound rules db st)
    (hactive : Active db st) (hsteps : r.steps.drop r.position = step :: steps) :
    ∃ db', stageStep r.generation r.position step db = .ok db' ∧
      Sound rules db' st ∧ Active db' st ∧ db'.blocks = db.blocks ∧
      Staged db' st { r with position := r.position + 1 } := by
  obtain ⟨mid, hmoves, hkv⟩ := hr.path
  rw [hsteps] at hmoves
  obtain ⟨next, hrest, hdelta⟩ := hsound.applyDelta hmoves hkv
  have hdrop : r.steps.drop (r.position + 1) = steps := by
    rw [← List.drop_drop, hsteps, List.drop_one, List.tail_cons]
  refine ⟨{ db with
    kv := Function.update db.kv r.generation (st next)
    reorg := some { r with position := r.position + 1 } }, ?_, hsound.of_eq rfl rfl rfl,
    ⟨hactive.tip, hactive.slot_le, ?_, hactive.events⟩, rfl, ?_⟩
  · simp only [Ledger.stageStep, hdelta, bind, Except.bind, pure, Except.pure, hr.row,
      Option.map_some]
  · exact (Function.update_of_ne (hactive.slot_ne hr) _ _).trans hactive.slot_eq
  · refine ⟨rfl, hr.staging, hr.old, hr.generation, hr.heavier, next, ?_, Function.update_self ..⟩
    dsimp only
    rw [hdrop]
    exact hrest.of_eq rfl

/-- An intent that has come to its target is published. -/
theorem Staged.publish (hr : Staged db st r) (hsound : Sound rules db st) (hactive : Active db st)
    (hsteps : r.steps.drop r.position = []) : db.kv r.generation = st r.newTip ∧
    ∃ db', publish r db = .ok db' ∧ Sound rules db' st ∧ Active db' st ∧ db'.blocks = db.blocks ∧
      db'.pending = none ∧ db'.tip = r.newTip := by
  obtain ⟨mid, hmoves, hkv⟩ := hr.path
  rw [hsteps] at hmoves
  cases hmoves
  refine ⟨hkv, ?_⟩
  obtain ⟨-, t, -, ht, -⟩ := hr.heavier
  have hnew : ∀ j, 0 ≤ j → db.events.get (toLex (r.generation, j)) = none := fun j _ =>
    hactive.events _ j (by have := hr.generation; omega)
  obtain ⟨events, hinsert, hget⟩ := @Store.insertEvents_ok _ _ _ _ _
    { db with tip := r.newTip, generation := r.generation, slot := r.generation } r.steps _ 0 hnew
  refine ⟨{ db with
    tip := r.newTip, generation := r.generation, slot := r.generation, events
    reorg := some { r with done := true }
    kv := fun i => if i = r.generation then db.kv i else ∅ }, ?_, hsound.of_eq rfl rfl rfl,
    ⟨⟨t, ht⟩, le_rfl, ?_, fun g i hg => ?_⟩, rfl, ?_, rfl⟩
  · simp only [Ledger.publish, hinsert, bind, Except.bind, pure, Except.pure]
    rw [hr.row, Option.map_some]
  · dsimp only
    rw [if_pos rfl, hkv]
  · have hgen := hr.generation
    dsimp only at hg ⊢
    rw [hget g i (by omega)]
    exact hactive.events g i (by omega)
  · simp [Store.pending]

variable [DecidableEq R]

theorem recoverIntent_idle (h : db.pending = none) :
    (recoverIntent rootOf).run db = ⟨[], .ok db.tip⟩ := by
  rw [recoverIntent, Proc.read_bind, h]
  rfl

/-- What recovery does after the steps. -/
def finish (rootOf : OrdMap String V → R) (r : Intent Id) : Proc Fault (Store Id V R B) Id := do
  Proc.query (checkStaged rootOf r)
  Proc.transact (publish r)
  pure r.newTip

theorem Staged.recoverIntent (hr : Staged db st r) : (recoverIntent rootOf).run db =
    (replay r.generation r.position (r.steps.drop r.position) >>= fun _ =>
      finish rootOf r).run db := by
  rw [Ledger.recoverIntent, Proc.read_bind, hr.pending]
  exact Proc.query_bind _ (a := ()) (check_ok.mpr ⟨hr.old, hr.generation⟩)

/-- A recovery of a pending intent makes the next commit and goes on as a recovery of that. -/
theorem Staged.commits (hr : Staged db st r) (hsound : Sound rules db st) (hactive : Active db st) :
    ∃ db', Heading rules st db.blocks r.oldTip r.newTip db' ∧
        (Ledger.recoverIntent rules.stateRoot).run db =
        ⟨db' :: ((Ledger.recoverIntent rules.stateRoot).run db').commits,
          ((Ledger.recoverIntent rules.stateRoot).run db').result⟩ := by
  cases hsteps : r.steps.drop r.position with
  | nil =>
    obtain ⟨hkv, db', hpublish, hsound', hactive', hblocks, hdone, htip⟩ :=
      hr.publish hsound hactive hsteps
    obtain ⟨-, b, -, hb, -⟩ := hr.heavier
    refine ⟨db', .published hsound' hactive' hblocks hdone htip, ?_⟩
    have hroot : checkStaged rules.stateRoot r db = .ok () := by
      rw [checkStaged, Store.block_ok.mpr hb]
      exact check_ok.mpr (by rw [hkv, hsound.root _ b hb])
    rw [recoverIntent_idle hdone, hr.recoverIntent, hsteps, htip]
    show (finish rules.stateRoot r).run db = _
    rw [finish, Proc.query_bind _ hroot, Proc.transact_bind _ hpublish]
    rfl
  | cons step steps =>
    obtain ⟨db', hstage, hsound', hactive', hblocks, hr'⟩ := hr.stageStep hsound hactive hsteps
    refine ⟨db', .staging hsound' hactive' hblocks hr' rfl rfl, ?_⟩
    have hdrop : r.steps.drop (r.position + 1) = steps := by
      rw [← List.drop_drop, hsteps, List.drop_one, List.tail_cons]
    rw [hr.recoverIntent, hr'.recoverIntent, hsteps, hdrop]
    show ((Proc.transact (Ledger.stageStep r.generation r.position step) >>= fun _ =>
      replay r.generation (r.position + 1) steps) >>= fun _ => finish rules.stateRoot r).run db = _
    rw [Proc.bind_assoc, Proc.transact_bind _ hstage]
    rfl

variable (rules st) in
theorem Heading.resumes (blocks : OrdMap Id (Block Id R B)) (old target : Id) :
    (recoverIntent rules.stateRoot).Resumes (Heading rules st blocks old target) := by
  intro db h
  cases h with
  | published _ _ _ hdone => exact .inl (by rw [recoverIntent_idle hdone])
  | staging hsound hactive hblocks hr hold htarget =>
    subst hblocks hold htarget
    exact .inr (hr.commits hsound hactive)

/-! ## Activation -/

/-- Activation of a heavier target commits one store from which a recovery goes on. -/
theorem switchTo_heading (hsound : Sound rules db st) (hactive : Active db st)
    (hready : db.pending = none) (cut : Bool) (ho : db.blocks.get db.tip = some o)
    (hb : db.blocks.get target = some b) (hheavier : o.work < b.work) :
    ∃ db', Heading rules st db.blocks db.tip target db' ∧
      (switchTo rules.stateRoot target cut).run db =
        ⟨db' :: ((recoverIntent rules.stateRoot).run db').commits,
        ((recoverIntent rules.stateRoot).run db').result⟩ := by
  have hquery : (switchTo rules.stateRoot target cut).run db =
      (if b.parent = some db.tip ∧ cut = false then do
        Proc.transact (extendTip rules.stateRoot target db.slot db.generation)
        pure target
      else do
        let steps ← Proc.query fun s => stepsBetween s db.tip target
        Proc.transact fun s => .ok (openIntent db.tip target db.generation steps s)
        recoverIntent rules.stateRoot : Proc Fault (Store Id V R B) Id).run db := by
    rw [switchTo, Proc.read_bind]
    dsimp only
    rw [Proc.query_bind (fun s : Store Id V R B => s.block target) (Store.block_ok.mpr hb),
      Proc.query_bind (fun s : Store Id V R B => s.block db.tip) (Store.block_ok.mpr ho),
      if_neg (Nat.not_le.mpr hheavier)]
  rw [hquery]
  by_cases hfast : b.parent = some db.tip ∧ cut = false
  · rw [if_pos hfast]
    have hmoves : Moves db db.tip [(.attach, target)] target := .attach hb hfast.1 .nil
    obtain ⟨m, hm, hdelta⟩ := hsound.applyDelta hmoves hactive.slot_eq
    cases hm
    have hnew : db.events.get (toLex (db.generation + 1, 0)) = none := hactive.events _ _ (by omega)
    let extended : Store Id V R B := { db with
      kv := Function.update db.kv db.slot (st target)
      tip := target
      generation := db.generation + 1
      events := db.events.insert (toLex (db.generation + 1, 0)) (.attach, target) }
    have hextend : extendTip rules.stateRoot target db.slot db.generation db = .ok extended := by
      simp only [reduceCtorEq, decide_false] at hdelta
      have hblock : Store.block { db with kv := Function.update db.kv db.slot (st target) } target =
        .ok b := Store.block_ok.mpr hb
      have hcheck : check (rules.stateRoot (st target) = b.stateRoot) .root = .ok () :=
        check_ok.mpr (hsound.root _ b hb).symm
      simp only [extendTip, hdelta, bind, Except.bind, hblock, Function.update_self, hcheck,
        Store.insertEvent, hnew, extended]
    have hidle : (recoverIntent rules.stateRoot).run extended = ⟨[], .ok target⟩ :=
      recoverIntent_idle hready
    refine ⟨extended, .published (hsound.of_eq rfl rfl rfl) ⟨⟨b, hb⟩, ?_, ?_, fun g i hg => ?_⟩ rfl
      hready rfl,
      ?_⟩
    · exact hactive.slot_le.trans (Nat.le_succ _)
    · exact Function.update_self ..
    · have hg : db.generation + 1 < g := hg
      have hne : toLex (db.generation + 1, 0) ≠ toLex (g, i) := fun he => by cases he; omega
      exact (OrdMap.get_insert_ne hne).trans (hactive.events g i (by omega))
    · rw [Proc.transact_bind _ hextend, hidle]
      rfl
  · rw [if_neg hfast]
    obtain ⟨steps, hsteps, hmoves⟩ := hsound.stepsBetween ho hb
    have hle := hactive.slot_le
    have hslot : ∀ m, Function.update (Function.update db.kv (db.generation + 1) ∅)
        (db.generation + 1) m db.slot = db.kv db.slot := fun m => by
      rw [Function.update_of_ne (by omega), Function.update_of_ne (by omega)]
    refine ⟨openIntent db.tip target db.generation steps db,
      .staging (hsound.of_eq rfl rfl rfl) ⟨hactive.tip, hle, (hslot _).trans hactive.slot_eq,
        hactive.events⟩
        rfl ⟨rfl, rfl, rfl, rfl, ⟨o, b, ho, hb, hheavier⟩, db.tip, hmoves.of_eq rfl, ?_⟩ rfl rfl,
        ?_⟩
    · refine (Function.update_self ..).trans ?_
      rw [Function.update_of_ne (by omega), hactive.slot_eq]
    · rw [Proc.query_bind (fun s : Store Id V R B => stepsBetween s db.tip target) hsteps]
      exact Proc.transact_bind _ rfl

end

end Trillionnium.Ledger
