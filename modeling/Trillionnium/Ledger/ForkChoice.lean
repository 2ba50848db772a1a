import Trillionnium.Ledger.Runs

/-!
# Difficulty and fork choice

Along every chain of a store the headers that retargeting reads are there, the targets stay within
the limit, and the chainwork grows. Over a run the chainwork of the tip never goes down.
-/

namespace Trillionnium.Ledger

open Lib

variable {Id V R B : Type} [LinearOrder Id] {rules : Rules Id V R B} {db db' : Store Id V R B}
  {st : Id → OrdMap String V}

/-! ## Ancestors -/

/-- The ancestor `count` blocks below. -/
def ancestor (db : Store Id V R B) : Nat → Id → Option Id
  | 0, id => some id
  | count + 1, id => (db.blocks.get id).bind fun b => b.parent.bind (ancestor db count)

/-- The time and target of a stored block, or what stands in for those of the genesis. -/
def stampAt (rules : Rules Id V R B) (db : Store Id V R B) (id : Id) : Option Stamp :=
  if id = rules.genesis then some rules.params.standIn
  else (db.blocks.get id).bind fun b => b.content.map fun x => ⟨x.header.timestamp, x.header.target⟩

variable [DecidableEq V]

theorem Extends.stamp {id p : Id} (h : Extends rules db st id b p bp x)
    (hb : db.blocks.get id = some b) (hne : id ≠ rules.genesis) :
    stampOf b = .ok ⟨x.header.timestamp, x.header.target⟩ ∧
      stampAt rules db id = some ⟨x.header.timestamp, x.header.target⟩ := by
  constructor
  · rw [stampOf, h.content]
  · rw [stampAt, if_neg hne, hb, Option.bind_some, h.content, Option.map_some]

variable (h : Sound rules db st)
include h

theorem Sound.stamp {id : Id}
    (hb : db.blocks.get id = some b) : ∃ stamp, stampAt rules db id = some stamp := by
  by_cases he : id = rules.genesis
  · exact ⟨rules.params.standIn, by rw [stampAt, if_pos he]⟩
  · obtain ⟨p, bp, x, hx⟩ := h.linked id b hb he
    exact ⟨_, (hx.stamp hb he).2⟩

/-- The headers from a block on are those of its ancestors, as far as they are read. -/
theorem Sound.headersFrom {id : Id} (hb : db.blocks.get id = some b) (count : Nat) :
    ∃ headers, headersFrom rules db count (some id) = .ok headers ∧
      ∀ i, i < count → i ≤ b.height → ∃ anc ba, ancestor db i id = some anc ∧
        db.blocks.get anc = some ba ∧ ba.height + i = b.height ∧
        headers[i]? = stampAt rules db anc := by
  induction count generalizing id b with
  | zero => exact ⟨_, rfl, fun i hi => absurd hi (Nat.not_lt_zero i)⟩
  | succ count ih =>
    by_cases he : id = rules.genesis
    · subst he
      obtain ⟨g, hg, -, hzero, -⟩ := h.base
      rw [hb] at hg
      cases hg
      refine ⟨[rules.params.standIn], by rw [Ledger.headersFrom, if_pos rfl], fun i _ hi => ?_⟩
      obtain rfl : i = 0 := by omega
      exact ⟨rules.genesis, b, rfl, hb, rfl, by rw [stampAt, if_pos rfl]; rfl⟩
    · obtain ⟨p, bp, x, hx⟩ := h.linked id b hb he
      obtain ⟨hstamp, hat⟩ := hx.stamp hb he
      obtain ⟨rest, hrest, hall⟩ := ih hx.below
      have hne : some id ≠ some rules.genesis := fun heq => he (Option.some.inj heq)
      refine ⟨⟨x.header.timestamp, x.header.target⟩ :: rest, ?_, fun i hi hle => ?_⟩
      · rw [Ledger.headersFrom, if_neg hne]
        simp only [Store.block_ok.mpr hb, hstamp, hx.parent, hrest, bind, Except.bind, pure,
          Except.pure]
      · cases i with
        | zero => exact ⟨id, b, rfl, hb, rfl, by rw [hat]; rfl⟩
        | succ i =>
          have hheight := hx.height.2
          obtain ⟨anc, ba, hanc, hba, hsum, hget⟩ := hall i (by omega) (by omega)
          refine ⟨anc, ba, ?_, hba, by omega, hget⟩
          rw [ancestor, hb, Option.bind_some, hx.parent, Option.bind_some, hanc]

/-! ## Targets -/

/-- What `retarget` is called with at a block whose child starts a new interval. -/
structure Retargets (rules : Rules Id V R B) (db : Store Id V R B) (p : Id) (bp : Block Id R B)
    (first last : Stamp) : Prop where
  headers : ∃ headers, ancestorHeaders rules db p = .ok headers ∧
    headers[rules.params.retargetInterval - 1]? = some first ∧ headers[0]? = some last
  first : ∃ anc ba, ancestor db (rules.params.retargetInterval - 1) p = some anc ∧
    db.blocks.get anc = some ba ∧ ba.height + rules.params.retargetInterval = bp.height + 1 ∧
    stampAt rules db anc = some first
  last : stampAt rules db p = some last

theorem Sound.retargets {p : Id}
    (hbp : db.blocks.get p = some bp) (hlast : stampAt rules db p = some last)
    (hnew : (bp.height + 1) % rules.params.retargetInterval = 0) :
    ∃ first, Retargets rules db p bp first last := by
  have hinterval := rules.params.interval_ge
  have hle : rules.params.retargetInterval ≤ bp.height + 1 :=
    Nat.le_of_dvd (Nat.succ_pos _) (Nat.dvd_of_mod_eq_zero hnew)
  have hwidth := le_max_left rules.params.retargetInterval rules.params.medianTimeWidth
  obtain ⟨headers, hheaders, hall⟩ := h.headersFrom hbp
    (max rules.params.retargetInterval rules.params.medianTimeWidth)
  obtain ⟨anc, ba, hanc, hba, hsum, hfirst⟩ := hall (rules.params.retargetInterval - 1) (by omega)
    (by omega)
  obtain ⟨self, bself, hself, -, -, hzero⟩ := hall 0 (by omega) (Nat.zero_le _)
  cases hself
  obtain ⟨first, hstamp⟩ := h.stamp hba
  exact ⟨first, ⟨headers, hheaders, hfirst.trans hstamp, hzero.trans hlast⟩,
    ⟨anc, ba, hanc, hba, by omega, hstamp⟩, hlast⟩

/-- The target over a block: that of the block, or the retargeted one. -/
theorem Sound.targetOver {p : Id}
    (hbp : db.blocks.get p = some bp) (hlast : stampAt rules db p = some last)
    (hrange : 1 ≤ last.target ∧ last.target ≤ rules.params.powLimit) :
    ∃ t, targetOver rules db p = .ok t ∧ 1 ≤ t ∧ t ≤ rules.params.powLimit := by
  have hinterval := rules.params.interval_ge
  have hwidth := le_max_left rules.params.retargetInterval rules.params.medianTimeWidth
  by_cases hnew : (bp.height + 1) % rules.params.retargetInterval = 0
  · obtain ⟨first, ⟨headers, hheaders, hfirst, hzero⟩, -, -⟩ := h.retargets hbp hlast hnew
    refine ⟨min rules.params.powLimit (max 1 (scaledTarget last.target
      (desiredSpan rules.params.retargetInterval rules.params.targetSpacing) first.timestamp
      last.timestamp)), ?_, le_min (hrange.1.trans hrange.2) (le_max_left _ _), min_le_left _ _⟩
    simp only [Ledger.targetOver, Store.block_ok.mpr hbp, hheaders, headerAt, hfirst, hzero, bind,
      Except.bind, hnew, if_true]
    exact retarget_ok hinterval rules.params.spacing_pos hrange.1 hrange.2 rules.params.limit_lt
  · obtain ⟨headers, hheaders, hall⟩ := h.headersFrom hbp
      (max rules.params.retargetInterval rules.params.medianTimeWidth)
    obtain ⟨self, bself, hself, -, -, hzero⟩ := hall 0 (by omega) (Nat.zero_le _)
    cases hself
    have hheaders : ancestorHeaders rules db p = .ok headers := hheaders
    refine ⟨last.target, ?_, hrange⟩
    simp only [Ledger.targetOver, Store.block_ok.mpr hbp, hheaders, headerAt,
      hzero.trans hlast, bind, Except.bind, hnew, if_false, pure, Except.pure]

/-- The targets along a chain are within the limit. -/
theorem Sound.target_range {id : Id} {stamp : Stamp}
    (hb : db.blocks.get id = some b) (hstamp : stampAt rules db id = some stamp) :
    1 ≤ stamp.target ∧ stamp.target ≤ rules.params.powLimit := by
  -- by induction on the height; the target was computed over the parent
  generalize hn : b.height = n
  induction n generalizing id b stamp with
  | zero =>
    obtain rfl := h.eq_genesis hb hn
    rw [stampAt, if_pos rfl] at hstamp
    cases hstamp
    exact ⟨rules.params.initial_pos, rules.params.initial_le⟩
  | succ n ih =>
    have hne : id ≠ rules.genesis := by
      rintro rfl
      obtain ⟨g, hg, -, hzero, -⟩ := h.base
      rw [hb] at hg
      cases hg
      omega
    obtain ⟨p, bp, x, hx⟩ := h.linked id b hb hne
    obtain ⟨last, hlast⟩ := h.stamp hx.below
    have hrange := ih hx.below hlast (by have := hx.height.2; omega)
    obtain ⟨t, ht, htrange⟩ := h.targetOver hx.below hlast hrange
    rw [hx.target] at ht
    cases ht
    rw [(hx.stamp hb hne).2] at hstamp
    cases hstamp
    exact htrange

/-- A block has more work than the one below. -/
theorem Sound.work_lt {id p : Id}
    (hb : db.blocks.get id = some b) (hp : b.parent = some p) (hbp : db.blocks.get p = some bp) :
    bp.work < b.work := by
  obtain ⟨bq, x, hx⟩ := h.parent hb hp
  have hbelow := hx.below
  rw [hbp] at hbelow
  cases hbelow
  obtain ⟨score, hscore, hwork⟩ := hx.work
  unfold work at hscore
  split at hscore
  · rename_i hrange
    cases hscore
    have := work_pos hrange.2
    omega
  · cases hscore

omit h

/-! ## The tip over a run -/

section
variable [DecidableEq R] [DecidableEq B]

/-- The row of the tip before and after: the same tip, or one with more work. -/
theorem Consistent.call_tip (h : Consistent rules st db) (hcall : Call rules db db') :
    ∃ o t, db.blocks.get db.tip = some o ∧ db'.blocks.get db'.tip = some t ∧
      (db'.tip = db.tip ∧ t = o ∨ o.work < t.work) := by
  obtain ⟨o, ho⟩ := h.active.tip
  rcases h.call hcall with hmoved | ⟨id, x, bp, state, score, -, hfits, rfl⟩
  · rcases hmoved.tip with he | ⟨o', t, ho', ht, hlt⟩
    · exact ⟨o, o, ho, by rw [hmoved.blocks, he, ho], .inl ⟨he, rfl⟩⟩
    · exact ⟨o', t, ho', by rw [hmoved.blocks, ht], .inr hlt⟩
  · have hne : id ≠ db.tip := by
      rintro rfl
      rw [hfits.fresh] at ho
      cases ho
    exact ⟨o, o, ho, (OrdMap.get_insert_ne hne).trans ho, .inl ⟨rfl, rfl⟩⟩

theorem Reachable.run_tip (h : Reachable rules db)
    (hrun : Relation.ReflTransGen (Call rules) db db') :
    ∃ o t, db.blocks.get db.tip = some o ∧ db'.blocks.get db'.tip = some t ∧
      (db'.tip = db.tip ∧ t = o ∨ o.work < t.work) := by
  induction hrun with
  | refl =>
    obtain ⟨st, hst⟩ := h.consistent
    obtain ⟨o, ho⟩ := hst.active.tip
    exact ⟨o, o, ho, ho, .inl ⟨rfl, rfl⟩⟩
  | tail hrun hcall ih =>
    obtain ⟨st, hst⟩ := Reachable.consistent (Relation.ReflTransGen.trans h hrun)
    obtain ⟨o, t, ho, ht, hot⟩ := ih
    obtain ⟨t', u, ht', hu, htu⟩ := hst.call_tip hcall
    rw [ht] at ht'
    cases ht'
    refine ⟨o, u, ho, hu, ?_⟩
    rcases hot with ⟨he, rfl⟩ | hlt
    · rcases htu with ⟨he', rfl⟩ | hlt'
      · exact .inl ⟨he'.trans he, rfl⟩
      · exact .inr hlt'
    · rcases htu with ⟨_, rfl⟩ | hlt'
      · exact .inr hlt
      · exact .inr (hlt.trans hlt')

/-- In every store of a run: the targets of the stored blocks are within the limit; where a block
starts a new interval, the header one interval below it is read and `retarget` returns a target,
from one that moves by a factor of at most four and grows with the observed span; every block has
more work than its parent. Over any further calls the tip stays or is replaced by one with more
work, and a recovery ends with a tip that no stored block outweighs. -/
theorem reachable_fork_choice (h : Reachable rules db) :
    (∀ id b x, db.blocks.get id = some b → b.content = some x →
      1 ≤ x.header.target ∧ x.header.target ≤ rules.params.powLimit) ∧
    (∀ p bp, db.blocks.get p = some bp → ∃ t, targetOver rules db p = .ok t) ∧
    (∀ p bp, db.blocks.get p = some bp → (bp.height + 1) % rules.params.retargetInterval = 0 →
      ∃ first last scaled, Retargets rules db p bp first last ∧
        scaled = scaledTarget last.target
          (desiredSpan rules.params.retargetInterval rules.params.targetSpacing)
          first.timestamp last.timestamp ∧
        retarget last.target first.timestamp last.timestamp rules.params.retargetInterval
          rules.params.targetSpacing rules.params.powLimit =
            .ok (min rules.params.powLimit (max 1 scaled)) ∧
        last.target / 4 ≤ scaled ∧ scaled ≤ 4 * last.target) ∧
    (∀ parent first last first' last' t t' : Nat, (last : Int) - first ≤ last' - first' →
      retarget parent first last rules.params.retargetInterval rules.params.targetSpacing
        rules.params.powLimit = .ok t →
      retarget parent first' last' rules.params.retargetInterval rules.params.targetSpacing
        rules.params.powLimit = .ok t' → t ≤ t') ∧
    (∀ id b p bp, db.blocks.get id = some b → b.parent = some p → db.blocks.get p = some bp →
      bp.work < b.work) ∧
    (∀ db', Relation.ReflTransGen (Call rules) db db' → ∃ o t, db.blocks.get db.tip = some o ∧
      db'.blocks.get db'.tip = some t ∧ o.work ≤ t.work ∧ (db'.tip ≠ db.tip → o.work < t.work)) ∧
    ∀ cut, ∃ db', ((recover rules.stateRoot cut).run db).last db = db' ∧
      ((recover rules.stateRoot cut).run db).result = .ok db'.tip ∧
      ∀ id b t, db'.blocks.get id = some b → db'.blocks.get db'.tip = some t → b.work ≤ t.work := by
  obtain ⟨st, hst⟩ := h.consistent
  refine ⟨fun id b x hb hx => ?_, fun p bp hbp => ?_, fun p bp hbp hnew => ?_,
    fun parent first last first' last' t t' hspan ht ht' => ?_,
    fun id b p bp hb hp hbp => hst.sound.work_lt hb hp hbp, fun db' hrun => ?_, fun cut => ?_⟩
  · have hne : id ≠ rules.genesis := by
      rintro rfl
      obtain ⟨g, hg, -, -, hnone⟩ := hst.sound.base
      rw [hb] at hg
      cases hg
      rw [hx] at hnone
      cases hnone
    have hstamp : stampAt rules db id = some ⟨x.header.timestamp, x.header.target⟩ := by
      rw [stampAt, if_neg hne, hb, Option.bind_some, hx, Option.map_some]
    exact hst.sound.target_range hb hstamp
  · obtain ⟨last, hlast⟩ := hst.sound.stamp hbp
    obtain ⟨t, ht, -⟩ := hst.sound.targetOver hbp hlast (hst.sound.target_range hbp hlast)
    exact ⟨t, ht⟩
  · obtain ⟨last, hlast⟩ := hst.sound.stamp hbp
    obtain ⟨first, hre⟩ := hst.sound.retargets hbp hlast hnew
    have hrange := hst.sound.target_range hbp hlast
    have hpos := desiredSpan_pos rules.params.interval_ge rules.params.spacing_pos
    exact ⟨first, last, _, hre, rfl, retarget_ok rules.params.interval_ge rules.params.spacing_pos
      hrange.1 hrange.2 rules.params.limit_lt, scaledTarget_bounds hpos⟩
  · rw [retarget_eq ht, retarget_eq ht']
    exact min_le_min_left _ (max_le_max_left _ (scaledTarget_mono (by omega)))
  · obtain ⟨o, t, ho, ht, hot⟩ := h.run_tip hrun
    refine ⟨o, t, ho, ht, ?_, fun hne => ?_⟩
    · rcases hot with ⟨-, rfl⟩ | hlt
      · exact le_rfl
      · exact hlt.le
    · rcases hot with ⟨he, -⟩ | hlt
      · exact absurd he hne
      · exact hlt
  · obtain ⟨db', hlast, -, hresult, hmax⟩ := hst.recover_ends cut
    exact ⟨db', hlast, hresult, hmax⟩

end

/-- Recovery leaves the shorter branch for the heaviest tip. -/
theorem sample_fork_choice : sampleStore.tip = 1 ∧
    ∃ db, ((recover sampleRules.stateRoot false).run sampleStore).last sampleStore = db ∧
      db.tip = 3 ∧
      ∀ id b t, db.blocks.get id = some b → db.blocks.get 3 = some t → b.work ≤ t.work := by
  obtain ⟨-, -, -, -, -, -, hrecover⟩ := reachable_fork_choice sample_reachable
  obtain ⟨db, hlast, -, hmax⟩ := hrecover false
  have htips : sampleStore.tip = 1 ∧
      (((recover sampleRules.stateRoot false).run sampleStore).last sampleStore).tip = 3 := by
    decide +kernel
  rw [hlast] at htips
  rw [htips.2] at hmax
  exact ⟨htips.1, db, hlast, htips.2, hmax⟩

end Trillionnium.Ledger
