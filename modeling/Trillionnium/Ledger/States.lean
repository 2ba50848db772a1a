import Trillionnium.Ledger.Runs

/-!
# Stored states

The state that `Ledger.state_at` computes for a block, from whichever of its sources, is the one
that folding the execution over the chain from the genesis to that block gives.
-/

namespace Trillionnium.Ledger

open Lib

variable {Id V R B : Type} [LinearOrder Id] {rules : Rules Id V R B} {db db' : Store Id V R B}
  {st : Id → OrdMap String V}

def contentOf (b : Block Id R B) : Except Fault (Content Id R B) :=
  match b.content with
  | some x => .ok x
  | none => .error .noHeader

/-- The blocks above the genesis up to `id`, lowest first, by the parent column. -/
def chainTo (rules : Rules Id V R B) (db : Store Id V R B) :
    Nat → Id → Except Fault (List (Content Id R B))
  | 0, id => if id = rules.genesis then .ok [] else .error .endless
  | fuel + 1, id =>
    if id = rules.genesis then .ok []
    else do
      let b ← db.block id
      let x ← contentOf b
      let p ← parentOf b
      let below ← chainTo rules db fuel p
      pure (below ++ [x])

def executeBlock (rules : Rules Id V R B) (state : OrdMap String V) (x : Content Id R B) :
    Except String (OrdMap String V) := do
  let (state, _) ← rules.execute state x.body x.header.height x.header.miner x.header.parent
  pure state

/-- The execution of a chain from the genesis. -/
def executeChain (rules : Rules Id V R B) (chain : List (Content Id R B)) :
    Except String (OrdMap String V) :=
  chain.foldlM (executeBlock rules) rules.origin

theorem Sound.executed [DecidableEq V] (h : Sound rules db st) {id : Id} {b : Block Id R B}
    {fuel : Nat} (hb : db.blocks.get id = some b) (hfuel : b.height ≤ fuel) :
    ∃ chain, chainTo rules db fuel id = .ok chain ∧ executeChain rules chain = .ok (st id) := by
  induction fuel generalizing id b with
  | zero =>
    obtain rfl := h.eq_genesis hb (by omega)
    refine ⟨[], by rw [chainTo, if_pos rfl], ?_⟩
    rw [h.origin_eq]
    rfl
  | succ fuel ih =>
    by_cases he : id = rules.genesis
    · subst he
      refine ⟨[], by rw [chainTo, if_pos rfl], ?_⟩
      rw [h.origin_eq]
      rfl
    · obtain ⟨p, bp, x, hx⟩ := h.linked id b hb he
      obtain ⟨below, hbelow, hstate⟩ := ih hx.below (by have := hx.height.2; omega)
      obtain ⟨receipts, hexecute⟩ := hx.executed
      refine ⟨below ++ [x], ?_, ?_⟩
      · rw [chainTo, if_neg he]
        simp only [Store.block_ok.mpr hb, contentOf, hx.content, parentOf, hx.parent, hbelow, bind,
          Except.bind, pure, Except.pure]
      · rw [executeChain] at hstate
        rw [executeChain, List.foldlM_append, hstate]
        simp only [List.foldlM_cons, List.foldlM_nil, executeBlock, hx.header_parent, hx.height.1,
          hexecute, bind, Except.bind, pure, Except.pure]

section
variable [DecidableEq V] [DecidableEq R] (target : Id) (cut cut' : Bool)

/-- Where an activation ends, by the fast path or by steps. -/
theorem Consistent.switchTo_ends (h : Consistent rules st db) (hready : db.pending = none) :
    Consistent rules st (((switchTo rules.stateRoot target cut).run db).last db) ∧
      (Outweighs db.blocks target db.tip →
        (((switchTo rules.stateRoot target cut).run db).last db).tip = target) ∧
      (¬ Outweighs db.blocks target db.tip →
        ((switchTo rules.stateRoot target cut).run db).last db = db) := by
  refine ⟨(h.switchTo_stops hready List.getLastD_mem_cons).consistent, fun hheavier => ?_,
    fun hlight => ?_⟩
  · obtain ⟨db', hlast, -, -, htip, -⟩ := h.activated cut hready hheavier
    rw [activate_ready hready] at hlast
    rw [hlast, htip]
  · obtain ⟨o, ho⟩ := h.active.tip
    cases ht : db.blocks.get target with
    | none => rw [switchTo_unknown ht]; rfl
    | some t =>
      have hle : t.work ≤ o.work := by
        by_contra hlt
        exact hlight ⟨o, t, ho, ht, Nat.lt_of_not_le hlt⟩
      rw [switchTo_light ho ht hle]
      rfl

/-- The fast path and the steps leave the same tip with the same state. -/
theorem Consistent.switchTo_cut (h : Consistent rules st db) (hready : db.pending = none)
    {s s' : Store Id V R B} (hs : ((switchTo rules.stateRoot target cut).run db).last db = s)
    (hs' : ((switchTo rules.stateRoot target cut').run db).last db = s') :
    s.tip = s'.tip ∧ s.kv s.slot = s'.kv s'.slot := by
  obtain ⟨hc, hheavy, hlight⟩ := h.switchTo_ends target cut hready
  obtain ⟨hc', hheavy', hlight'⟩ := h.switchTo_ends target cut' hready
  rw [hs] at hc hheavy hlight
  rw [hs'] at hc' hheavy' hlight'
  have htip : s.tip = s'.tip := by
    by_cases hw : Outweighs db.blocks target db.tip
    · rw [hheavy hw, hheavy' hw]
    · rw [hlight hw, hlight' hw]
  exact ⟨htip, by rw [hc.active.slot_eq, hc'.active.slot_eq, htip]⟩

theorem Consistent.activate_cut (h : Consistent rules st db) {s s' : Store Id V R B}
    (hs : ((activate rules.stateRoot target cut).run db).last db = s)
    (hs' : ((activate rules.stateRoot target cut').run db).last db = s') :
    s.tip = s'.tip ∧ s.kv s.slot = s'.kv s'.slot := by
  cases hpending : db.pending with
  | none =>
    rw [activate_ready hpending] at hs hs'
    exact h.switchTo_cut target cut cut' hpending hs hs'
  | some r =>
    -- both finish the pending intent first
    obtain ⟨db₁, hlast, hmoved, hdone, hresult⟩ := h.recovered
    have hrun : ∀ c, ((activate rules.stateRoot target c).run db).last db =
        ((switchTo rules.stateRoot target c).run db₁).last db₁ := fun c => by
      rw [activate, Proc.read_bind, hpending]
      dsimp only
      rw [Proc.bind_of_ok hresult, hlast]
      refine (Proc.last_append _).trans ?_
      rw [hlast]
    rw [hrun] at hs hs'
    exact hmoved.consistent.switchTo_cut target cut cut' hdone hs hs'

end

/-- In every store of a run, every stored block has the state of its executed chain: that is what
`state_at` returns, what the active slot and the checkpoints hold, and what the deltas above any
checkpoint lead to. An activation by the fast path leaves the tip and the state that the steps
leave. -/
theorem reachable_state_at [DecidableEq V] [DecidableEq R] [DecidableEq B]
    (h : Reachable rules db) :
    (∀ id b, db.blocks.get id = some b → ∃ chain state,
      chainTo rules db b.height id = .ok chain ∧ executeChain rules chain = .ok state ∧
      stateAt rules.stateRoot db id = .ok state ∧
      (id = db.tip → db.kv db.slot = state) ∧
      (∀ m, db.snapshots.get id = some m → m = state) ∧
      ∀ c m (path : List Id), db.snapshots.get c = some m →
        Moves db c (path.map (Prod.mk .attach)) id →
        path.foldlM (replayBlock rules.stateRoot db) m = .ok state) ∧
    ∀ target s s', ((activate rules.stateRoot target false).run db).last db = s →
      ((activate rules.stateRoot target true).run db).last db = s' →
      s.tip = s'.tip ∧ s.kv s.slot = s'.kv s'.slot := by
  obtain ⟨st, hst⟩ := h.consistent
  refine ⟨fun id b hb => ?_, fun target s s' hs hs' => hst.activate_cut target false true hs hs'⟩
  obtain ⟨chain, hchain, hstate⟩ := hst.sound.executed hb le_rfl
  refine ⟨chain, st id, hchain, hstate, hst.stateAt hb, ?_, fun m hm =>
    (hst.sound.snapshot id m hm).1, fun c m path hm hpath => ?_⟩
  · rintro rfl
    exact hst.active.slot_eq
  · rw [(hst.sound.snapshot c m hm).1]
    exact hst.sound.replay hpath

/-- The state of a block off the active branch, and the two ways to switch to it. -/
theorem sample_state_at : (∃ chain state, chainTo sampleRules sampleStore 2 3 = .ok chain ∧
      executeChain sampleRules chain = .ok state ∧ state.entries = [("b", 2), ("c", 3)]) ∧
    (activated 3 false sampleStore).kv (activated 3 false sampleStore).slot =
      (activated 3 true sampleStore).kv (activated 3 true sampleStore).slot := by
  obtain ⟨hstates, hcut⟩ := reachable_state_at sample_reachable
  have hread : ((sampleStore.blocks.get 3).map Block.height = some 2) ∧
      (stateAt sampleRules.stateRoot sampleStore 3).map OrdMap.entries =
        .ok [("b", 2), ("c", 3)] := by
    decide +kernel
  obtain ⟨b, hb, hheight⟩ := Option.map_eq_some_iff.mp hread.1
  obtain ⟨chain, state, hchain, hstate, hat, -⟩ := hstates 3 b hb
  rw [hheight] at hchain
  have hsame := hcut 3 (activated 3 false sampleStore) (activated 3 true sampleStore) rfl rfl
  refine ⟨⟨chain, state, hchain, hstate, ?_⟩, hsame.2⟩
  rw [hat] at hread
  exact Except.ok.inj hread.2

end Trillionnium.Ledger
