import Trillionnium.Ledger.Reorg

/-!
# Admission

The state that is computed for a block, from the active slot, a checkpoint or the deltas above one,
is the state of the block. An admission adds a block with the state that its execution makes of that
of its parent.
-/

namespace Trillionnium.Ledger

open Lib

variable {Id V R B : Type} [LinearOrder Id] [DecidableEq V]

/-- The invariant of a store. -/
structure Consistent (rules : Rules Id V R B) (st : Id → OrdMap String V) (db : Store Id V R B) :
    Prop where
  sound : Sound rules db st
  active : Active db st
  staged : ∀ r, db.pending = some r → Staged db st r

section
variable {rules : Rules Id V R B} {db db' : Store Id V R B} {st : Id → OrdMap String V}
  {old target a : Id}

theorem Heading.consistent
    (h : Heading rules st blocks old target db) : Consistent rules st db := by
  cases h with
  | staging hsound hactive _ hr =>
    refine ⟨hsound, hactive, fun r hpending => ?_⟩
    rw [hr.pending] at hpending
    cases hpending
    exact hr
  | published hsound hactive _ hdone =>
    exact ⟨hsound, hactive, fun r hpending => by rw [hdone] at hpending; cases hpending⟩

/-! ## Insertion -/

variable {b : Block Id R B}

section
variable {id : Id} {x : Content Id R B} {prior state : OrdMap String V} {chainwork : Nat}

/-- The checkpoints after an admission: old ones, or the new one, and that of the genesis. -/
theorem snapshots_insertBlock :
    (∀ j m, (insertBlock rules id x prior state chainwork db).snapshots.get j = some m →
      j = id ∧ m = state ∨ db.snapshots.get j = some m) ∧ (db.snapshots.get rules.genesis ≠ none →
      (insertBlock rules id x prior state chainwork db).snapshots.get rules.genesis ≠ none) := by
  unfold insertBlock
  dsimp only
  split
  · unfold keepSnapshots
    dsimp only
    refine ⟨fun j m hm => ?_, fun hg => ?_⟩
    · rw [OrdMap.get_filter, Option.filter_eq_some_iff, OrdMap.get_insert] at hm
      obtain ⟨hm, -⟩ := hm
      split at hm
      · rename_i he
        cases hm
        exact .inl ⟨he.symm, rfl⟩
      · exact .inr hm
    · obtain ⟨m, hm⟩ := Option.ne_none_iff_exists'.mp
        (OrdMap.get_insert_ne_none hg : (db.snapshots.insert id state).get rules.genesis ≠ none)
      rw [OrdMap.get_filter, hm]
      simp
  · exact ⟨fun j m hm => .inr hm, fun hg => hg⟩

theorem get_insertBlock
    (h : (insertBlock rules id x prior state chainwork db).blocks.get j = some b) :
    (j = id ∧ b = ⟨some x.header.parent, x.header.height, Bytes.ofNatBE 64 chainwork, some x,
      x.header.state⟩) ∨ db.blocks.get j = some b := by
  rw [insertBlock] at h
  dsimp only at h
  rw [OrdMap.get_insert] at h
  split at h
  · rename_i he
    cases h
    exact .inl ⟨he.symm, rfl⟩
  · exact .inr h

/-- The block `x` fits over its parent. -/
structure Fits (rules : Rules Id V R B) (db : Store Id V R B) (st : Id → OrdMap String V) (id : Id)
    (x : Content Id R B) (bp : Block Id R B) (state : OrdMap String V) (score : Nat) : Prop where
  fresh : db.blocks.get id = none
  parent : db.blocks.get x.header.parent = some bp
  height : x.header.height = bp.height + 1
  target : targetOver rules db x.header.parent = .ok x.header.target
  executed : ∃ receipts, rules.execute (st x.header.parent) x.body x.header.height x.header.miner
    x.header.parent = .ok (state, receipts)
  root : x.header.state = rules.stateRoot state
  scored : work x.header.target = .ok score
  bounded : bp.work + score < 2 ^ 512

/-- An admitted block stands over its parent, and the others stand as before. -/
theorem Consistent.insertBlock (h : Consistent rules st db) (hready : db.pending = none)
    (hx : Fits rules db st id x bp state score) :
    Consistent rules (Function.update st id state)
      (insertBlock rules id x (st x.header.parent) state (bp.work + score) db) := by
  have hne : ∀ {j : Id} {b : Block Id R B}, db.blocks.get j = some b → id ≠ j := fun hj he => by
    rw [← he, hx.fresh] at hj
    cases hj
  have hst : ∀ {j : Id} {b : Block Id R B}, db.blocks.get j = some b →
      Function.update st id state j = st j := fun hj => Function.update_of_ne (hne hj).symm _ _
  have hkeeps : ∀ j b, db.blocks.get j = some b → (Ledger.insertBlock rules id x
      (st x.header.parent) state (bp.work + score) db).blocks.get j = some b :=
    fun j b hj => (OrdMap.get_insert_ne (hne hj)).trans hj
  have hwork : Bytes.toNatBE (Bytes.ofNatBE 64 (bp.work + score)) = bp.work + score :=
    Bytes.toNatBE_ofNatBE (hx.bounded.trans_eq (by rw [show 256 = 2 ^ 8 from rfl, ← pow_mul]))
  obtain ⟨hsnapshots, hcheckpoint⟩ := @snapshots_insertBlock Id V R B _ _ rules db id x
    (st x.header.parent) state (bp.work + score)
  obtain ⟨g, hg, hbase⟩ := h.sound.base
  obtain ⟨t, ht⟩ := h.active.tip
  refine ⟨⟨⟨g, hkeeps _ g hg, hbase⟩, (hst hg).trans h.sound.origin_eq, fun j b hj hne' => ?_,
    fun j b hj => ?_, fun j b hj => ?_, hcheckpoint h.sound.checkpoint, fun j m hm => ?_⟩,
    ⟨⟨t, hkeeps _ t ht⟩, h.active.slot_le, h.active.slot_eq.trans (hst ht).symm, h.active.events⟩,
    fun r hr => ?_⟩
  · rcases get_insertBlock hj with ⟨rfl, rfl⟩ | hold
    · refine ⟨x.header.parent, bp, x, rfl, hkeeps _ bp hx.parent, rfl, rfl,
        ⟨rfl, hx.height⟩, ?_, ?_, targetOver_mono hkeeps hx.target, score, hx.scored, hwork⟩
      · rw [hst hx.parent, Function.update_self, Store.delta, Ledger.insertBlock]
        dsimp only
        rw [OrdMap.get_insert_self, Option.getD_some]
      · rw [hst hx.parent, Function.update_self]
        exact hx.executed
    · obtain ⟨p, bq, y, hy⟩ := h.sound.linked j b hold hne'
      refine ⟨p, bq, y, hy.of_eq hkeeps ?_ (hst hold) (hst hy.below)⟩
      rw [Store.delta, Store.delta, Ledger.insertBlock]
      dsimp only
      rw [OrdMap.get_insert_ne (hne hold)]
  · rcases get_insertBlock hj with ⟨rfl, rfl⟩ | hold
    · rw [Function.update_self]
      exact hx.root
    · rw [hst hold]
      exact h.sound.root j b hold
  · rcases get_insertBlock hj with ⟨rfl, rfl⟩ | hold
    · exact Bytes.length_ofNatBE ..
    · exact h.sound.wide j b hold
  · rcases hsnapshots j m hm with ⟨rfl, rfl⟩ | hold
    · refine ⟨by rw [Function.update_self], ?_⟩
      rw [Ledger.insertBlock]
      dsimp only
      rw [OrdMap.get_insert_self]
      exact Option.some_ne_none _
    · obtain ⟨rfl, hpresent⟩ := h.sound.snapshot j m hold
      obtain ⟨b, hb⟩ := Option.ne_none_iff_exists'.mp hpresent
      exact ⟨(hst hb).symm, hkeeps j b hb ▸ Option.some_ne_none b⟩
  · have hnone : db.pending = some r := hr
    rw [hready] at hnone
    cases hnone

end

/-! ## The state of a block -/

variable [DecidableEq R]

theorem Consistent.readActive (h : Consistent rules st db) :
    db.readActive rules.stateRoot = .ok (db.tip, db.generation, st db.tip) := by
  obtain ⟨b, hb⟩ := h.active.tip
  have hcheck : check (rules.stateRoot (st db.tip) = b.stateRoot) .root = .ok () :=
    check_ok.mpr (h.sound.root _ b hb).symm
  simp only [Store.readActive, Store.block_ok.mpr hb, bind, Except.bind, h.active.slot_eq,
    hcheck, pure, Except.pure]

theorem Sound.ancestry_snapshot (h : Sound rules db st) (hb : db.blocks.get a = some b)
    (hm : db.snapshots.get a = some m) :
    ancestry rules.stateRoot db fuel a path = .ok (st a, path) := by
  obtain ⟨rfl, -⟩ := h.snapshot _ m hm
  have hcheck : check (rules.stateRoot (st a) = b.stateRoot) .root = .ok () :=
    check_ok.mpr (h.root _ b hb).symm
  cases fuel <;> simp only [Ledger.ancestry, Store.block_ok.mpr hb, bind, Except.bind, hm,
    hcheck, pure, Except.pure]

/-- The walk down finds a checkpoint below the block. -/
theorem Sound.ancestry (h : Sound rules db st) (hb : db.blocks.get a = some b)
    (hfuel : b.height ≤ fuel) (hpath : Moves db a (path.map (Prod.mk .attach)) target) :
    ∃ m path', ancestry rules.stateRoot db fuel a path = .ok (st m, path') ∧
      Moves db m (path'.map (Prod.mk .attach)) target := by
  induction fuel generalizing a b path with
  | zero =>
    obtain rfl := h.eq_genesis hb (by omega)
    obtain ⟨m, hm⟩ := Option.ne_none_iff_exists'.mp h.checkpoint
    exact ⟨_, path, h.ancestry_snapshot hb hm, hpath⟩
  | succ fuel ih =>
    cases hm : db.snapshots.get a with
    | some m => exact ⟨a, path, h.ancestry_snapshot hb hm, hpath⟩
    | none =>
      have hne : a ≠ rules.genesis := by
        rintro rfl
        exact h.checkpoint hm
      obtain ⟨p, bp, _, hx⟩ := h.linked a b hb hne
      have hheight := hx.height.2
      obtain ⟨m, path', hwalk, hmoves⟩ :=
        @ih p bp (a :: path) hx.below (by omega) (.attach hb hx.parent hpath)
      refine ⟨m, path', ?_, hmoves⟩
      have hcheck : check (bp.height + 1 = b.height) .height = .ok () := check_ok.mpr hheight.symm
      simp only [Ledger.ancestry, Store.block_ok.mpr hb, bind, Except.bind, hm, hx.parent,
        Store.block_ok.mpr hx.below, hcheck, hwalk]

theorem Sound.replay (h : Sound rules db st) {path : List Id}
    (hpath : Moves db a (path.map (Prod.mk .attach)) target) :
    path.foldlM (replayBlock rules.stateRoot db) (st a) = .ok (st target) := by
  induction path generalizing a with
  | nil => cases hpath; rfl
  | cons x path ih =>
    cases hpath with
    | attach hb hp hrest =>
      obtain ⟨_, _, hx⟩ := h.parent hb hp
      have hcheck : check (rules.stateRoot (st x) = _) .root = .ok () :=
        check_ok.mpr (h.root _ _ hb).symm
      have hblock : replayBlock rules.stateRoot db (st a) x = .ok (st x) := by
        simp only [replayBlock, hx.delta, Delta.attach_diff, Store.block_ok.mpr hb, bind,
          Except.bind, hcheck, pure, Except.pure]
      rw [List.foldlM_cons, hblock]
      exact ih hrest

theorem Consistent.stateAt (h : Consistent rules st db)
    (hb : db.blocks.get a = some b) : stateAt rules.stateRoot db a = .ok (st a) := by
  unfold Ledger.stateAt
  by_cases ha : a = db.tip
  · subst ha
    rw [if_pos rfl, h.readActive]
    rfl
  · have hstart : Moves db a (([] : List Id).map (Prod.mk .attach)) a := .nil
    obtain ⟨m, path, hwalk, hmoves⟩ := h.sound.ancestry hb le_rfl hstart
    rw [if_neg ha]
    simp only [Store.block_ok.mpr hb, bind, Except.bind, hwalk, h.sound.replay hmoves]

/-! ## Admission -/

theorem called_ok {α : Type} {r : Except String α} {v : α} : called r = .ok v ↔ r = .ok v := by
  cases r <;> simp [called]

/-- What admission has checked before it writes. -/
theorem Consistent.fits (h : Consistent rules st db) {id : Id} {x : Content Id R B}
    (hfresh : db.blocks.get id = none)
    (hok : prepareBlock rules x now db = .ok (prior, state, chainwork)) :
    ∃ bp score, Fits rules db st id x bp state score ∧ prior = st x.header.parent ∧
      chainwork = bp.work + score := by
  simp only [prepareBlock, bind_eq_ok, pure_eq_ok, called_ok, check_ok, Prod.mk.injEq] at hok
  obtain ⟨bp, hparent, -, hheight, target, htarget, -, rfl, headers, -, -, -, rest⟩ := hok
  rw [Store.block_ok] at hparent
  rw [h.stateAt hparent] at rest
  obtain ⟨prior', hprior, -, -, -, -, -, -, ⟨state', receipts⟩, hexecute, -, hroots, score,
    hscore, -, hbounded, rfl, rfl, rfl⟩ := rest
  cases hprior
  exact ⟨bp, score, ⟨hfresh, hparent, hheight, htarget, ⟨receipts, hexecute⟩, hroots.1, hscore,
    hbounded⟩, rfl, rfl⟩

variable [DecidableEq B]

/-- A stop of an admission leaves the store as it was, or with the block added. -/
theorem Consistent.admit_stops (h : Consistent rules st db)
    (hstop : (admitBlock rules x now).Stops db db') :
    db' = db ∨ ∃ bp state score, db.pending = none ∧
      Fits rules db st (rules.blockId x.header x.proof) x bp state score ∧
      db' = Ledger.insertBlock rules (rules.blockId x.header x.proof) x (st x.header.parent) state
        (bp.work + score) db := by
  unfold admitBlock at hstop
  obtain rfl | ⟨_, hready, hstop⟩ := hstop.query_bind
  · exact .inl rfl
  obtain rfl | ⟨_, _, hstop⟩ := hstop.query_bind
  · exact .inl rfl
  obtain rfl | ⟨existing, hexisting, hstop⟩ := hstop.query_bind
  · exact .inl rfl
  cases hexisting
  have hpending : db.pending = none := Option.isNone_iff_eq_none.mp (check_ok.mp hready)
  cases hrow : db.blocks.get (rules.blockId x.header x.proof) with
  | some row =>
    rw [hrow] at hstop
    obtain rfl | ⟨_, _, hstop⟩ := hstop.query_bind
    · exact .inl rfl
    · exact .inl hstop.pure
  | none =>
    rw [hrow] at hstop
    obtain rfl | ⟨_, _, hstop⟩ := hstop.query_bind
    · exact .inl rfl
    obtain rfl | ⟨⟨prior, state, chainwork⟩, hprepared, hstop⟩ := hstop.query_bind
    · exact .inl rfl
    obtain ⟨bp, score, hfits, rfl, rfl⟩ := h.fits hrow hprepared
    obtain rfl | ⟨t, ht, hstop⟩ := hstop.transact_bind
    · exact .inl rfl
    · cases ht
      exact .inr ⟨bp, state, score, hpending, hfits, hstop.pure⟩

end

end Trillionnium.Ledger
