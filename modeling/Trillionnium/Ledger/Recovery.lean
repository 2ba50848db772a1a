import Trillionnium.Ledger.Admission

/-!
# Recovery from any stop

The stores that admissions, activations and recoveries leave, stopped anywhere, are consistent, and
the tip they leave is the one before or a heavier one. From such a store an activation of a heavier
tip, stopped after any of its commits and recovered with any number of stops, ends as it would have
without them.
-/

namespace Trillionnium.Ledger

open Lib

variable {Id V R B : Type} [LinearOrder Id]

section
variable {rules : Rules Id V R B} {db db' db'' : Store Id V R B} {st : Id → OrdMap String V}
  {blocks : OrdMap Id (Block Id R B)} {old target a : Id} {cut : Bool}

def Outweighs (blocks : OrdMap Id (Block Id R B)) (t o : Id) : Prop :=
  ∃ bo bt, blocks.get o = some bo ∧ blocks.get t = some bt ∧ bo.work < bt.work

theorem Outweighs.trans {a b c : Id} (h : Outweighs blocks a b) (h' : Outweighs blocks b c) :
    Outweighs blocks a c := by
  obtain ⟨_, ba, hb, ha, hlt⟩ := h
  obtain ⟨bc, _, hc, hb', hlt'⟩ := h'
  rw [hb] at hb'
  cases hb'
  exact ⟨bc, ba, hc, ha, hlt'.trans hlt⟩

/-! ## The heaviest block -/

private theorem foldl_heavier {l : List (Id × Block Id R B)} {y : Id × Block Id R B} :
    ∃ x, l.foldl (fun acc x => match acc with
      | none => some x
      | some y => some (if heavier x y then x else y)) (some y) = some x ∧
      (x = y ∨ x ∈ l) ∧ y.2.chainwork ≤ x.2.chainwork ∧ ∀ z ∈ l, z.2.chainwork ≤ x.2.chainwork := by
  induction l generalizing y with
  | nil => exact ⟨y, rfl, .inl rfl, le_rfl, fun z hz => nomatch hz⟩
  | cons z l ih =>
    obtain ⟨x, hfold, hmem, hle, hall⟩ := @ih (if heavier z y then z else y)
    have hpick : y.2.chainwork ≤ (if heavier z y then z else y).2.chainwork ∧
        z.2.chainwork ≤ (if heavier z y then z else y).2.chainwork := by
      unfold heavier
      split
      · rename_i h
        simp only [Bool.or_eq_true, decide_eq_true_eq, Bool.and_eq_true] at h
        rcases h with h | ⟨h, -⟩
        · exact ⟨h.le, le_rfl⟩
        · exact ⟨h.ge, le_rfl⟩
      · rename_i h
        simp only [Bool.or_eq_true, decide_eq_true_eq, not_or] at h
        exact ⟨le_rfl, not_lt.mp h.1⟩
    refine ⟨x, hfold, ?_, hpick.1.trans hle, ?_⟩
    · rcases hmem with rfl | hmem
      · split
        · exact .inr List.mem_cons_self
        · exact .inl rfl
      · exact .inr (List.mem_cons_of_mem _ hmem)
    · intro w hw
      rcases List.mem_cons.mp hw with rfl | hw
      · exact hpick.2.trans hle
      · exact hall w hw

/-- The first row by `ORDER BY chainwork DESC` is a stored block that no other outweighs. -/
theorem best_spec {b : Block Id R B} (h : db.blocks.get a = some b) :
    ∃ id x, best db = some (id, x) ∧ db.blocks.get id = some x ∧
      ∀ j c, db.blocks.get j = some c → c.chainwork ≤ x.chainwork := by
  have hmem := OrdMap.mem_entries.mpr h
  unfold best
  cases hentries : db.blocks.entries with
  | nil =>
    rw [hentries] at hmem
    cases hmem
  | cons y l =>
    obtain ⟨⟨id, x⟩, hfold, hxy, hle, hall⟩ := @foldl_heavier Id R B _ l y
    have hx : (id, x) ∈ db.blocks.entries := by
      rw [hentries]
      rcases hxy with rfl | hx
      · exact List.mem_cons_self
      · exact List.mem_cons_of_mem _ hx
    refine ⟨id, x, hfold, OrdMap.mem_entries.mp hx, fun j c hc => ?_⟩
    have hc := OrdMap.mem_entries.mpr hc
    rw [hentries] at hc
    rcases List.mem_cons.mp hc with rfl | hc
    · exact hle
    · exact hall _ hc

variable [DecidableEq V]

/-- The order of the column is that of the numbers. -/
theorem Sound.chainwork_lt (h : Sound rules db st) {i j : Id} {b c : Block Id R B}
    (hb : db.blocks.get i = some b) (hc : db.blocks.get j = some c) :
    b.chainwork < c.chainwork ↔ b.work < c.work :=
  Bytes.lt_iff_toNatBE_lt ((h.wide i b hb).trans (h.wide j c hc).symm)

/-! ## Moves of the tip -/

/-- The tip stays or is replaced by a heavier block; the blocks stay. -/
structure Moved (rules : Rules Id V R B) (st : Id → OrdMap String V) (db db' : Store Id V R B) :
    Prop where
  consistent : Consistent rules st db'
  blocks : db'.blocks = db.blocks
  tip : db'.tip = db.tip ∨ Outweighs db.blocks db'.tip db.tip

theorem Consistent.stays (h : Consistent rules st db) : Moved rules st db db := ⟨h, rfl, .inl rfl⟩

theorem Moved.trans (h : Moved rules st db db') (h' : Moved rules st db' db'') :
    Moved rules st db db'' := by
  refine ⟨h'.consistent, h'.blocks.trans h.blocks, ?_⟩
  have htip' := h'.tip
  rw [h.blocks] at htip'
  rcases h.tip with he | hlt
  · rw [← he]
    exact htip'
  · rcases htip' with he | hlt'
    · rw [he]
      exact .inr hlt
    · exact .inr (hlt'.trans hlt)

/-! ## Recovery of an intent -/

theorem Heading.tip (h : Heading rules st blocks old target db) :
    db.tip = old ∨ db.tip = target := by
  cases h with
  | staging _ _ _ hr hold => exact .inl (hr.old.trans hold)
  | published _ _ _ _ htip => exact .inr htip

theorem Heading.blocks_eq (h : Heading rules st blocks old target db) : db.blocks = blocks := by
  cases h <;> assumption

/-- A pending intent leads to a heavier tip. -/
theorem Consistent.heading (h : Consistent rules st db) :
    ∃ target, Heading rules st db.blocks db.tip target db ∧
      (target = db.tip ∨ Outweighs db.blocks target db.tip) := by
  cases hpending : db.pending with
  | none => exact ⟨db.tip, .published h.sound h.active rfl hpending rfl, .inl rfl⟩
  | some r =>
    have hr := h.staged r hpending
    refine ⟨r.newTip, .staging h.sound h.active rfl hr hr.old.symm rfl, .inr ?_⟩
    rw [hr.old]
    exact hr.heavier

/-- On the way to a heavier tip the tip is the old one or that one. -/
theorem Heading.moved (h : Heading rules st db.blocks db.tip target db')
    (htarget : target = db.tip ∨ Outweighs db.blocks target db.tip) : Moved rules st db db' := by
  refine ⟨h.consistent, h.blocks_eq, ?_⟩
  rcases h.tip with he | he
  · exact .inl he
  · rw [he]
    exact htarget

variable [DecidableEq R]

/-- A recovery leaves no intent pending. -/
theorem Heading.recovered (h : Heading rules st blocks old target db) :
    Heading rules st blocks old target (((recoverIntent rules.stateRoot).run db).last db) ∧
      (((recoverIntent rules.stateRoot).run db).last db).pending = none ∧
      (((recoverIntent rules.stateRoot).run db).last db).tip = target ∧
      ((recoverIntent rules.stateRoot).run db).result = .ok target := by
  obtain ⟨hlast, hnil, hresult⟩ := (Heading.resumes rules st blocks old target).ends h
  refine ⟨hlast, ?_⟩
  cases hlast with
  | published _ _ _ hdone htip =>
    rw [recoverIntent_idle hdone, htip] at hresult
    exact ⟨hdone, htip, hresult.symm⟩
  | staging hsound hactive _ hr =>
    -- a pending intent would have a commit to make
    obtain ⟨_, _, hrun⟩ := hr.commits hsound hactive
    rw [hrun] at hnil
    cases hnil

theorem Consistent.recoverIntent_stops (h : Consistent rules st db)
    (hstop : (recoverIntent rules.stateRoot).Stops db db') : Moved rules st db db' := by
  obtain ⟨target, hheading, htarget⟩ := h.heading
  exact ((Heading.resumes rules st db.blocks db.tip target).stops hheading hstop).1.moved htarget

/-- A recovery ends with a tip and no intent. -/
theorem Consistent.recovered (h : Consistent rules st db) : ∃ db',
    ((recoverIntent rules.stateRoot).run db).last db = db' ∧ Moved rules st db db' ∧
      db'.pending = none ∧ ((recoverIntent rules.stateRoot).run db).result = .ok db'.tip := by
  obtain ⟨target, hheading, htarget⟩ := h.heading
  obtain ⟨hlast, hdone, htip, hresult⟩ := hheading.recovered
  exact ⟨_, rfl, hlast.moved htarget, hdone, by rw [hresult, htip]⟩

/-! ## Activation -/

theorem switchTo_unknown (h : db.blocks.get target = none) :
    (switchTo rules.stateRoot target cut).run db = ⟨[], .error .unknownParent⟩ := by
  have hblock : db.block target = .error .unknownParent := by rw [Store.block, h]
  have hquery : ((Proc.query fun db : Store Id V R B => db.block target).run db).result =
    .error .unknownParent := hblock
  rw [switchTo, Proc.read_bind]
  dsimp only
  rw [Proc.bind_of_error hquery]
  rfl

theorem switchTo_light {o t : Block Id R B} (ho : db.blocks.get db.tip = some o)
    (ht : db.blocks.get target = some t) (hle : t.work ≤ o.work) :
    (switchTo rules.stateRoot target cut).run db = ⟨[], .ok db.tip⟩ := by
  rw [switchTo, Proc.read_bind]
  dsimp only
  rw [Proc.query_bind (fun s : Store Id V R B => s.block target) (Store.block_ok.mpr ht),
    Proc.query_bind (fun s : Store Id V R B => s.block db.tip) (Store.block_ok.mpr ho), if_pos hle]
  rfl

theorem Consistent.switchTo_stops (h : Consistent rules st db) (hready : db.pending = none)
    (hstop : (switchTo rules.stateRoot target cut).Stops db db') : Moved rules st db db' := by
  obtain ⟨o, ho⟩ := h.active.tip
  cases ht : db.blocks.get target with
  | none =>
    rw [Proc.Stops, switchTo_unknown ht, List.mem_singleton] at hstop
    exact hstop ▸ h.stays
  | some t =>
    by_cases hle : t.work ≤ o.work
    · rw [Proc.Stops, switchTo_light ho ht hle, List.mem_singleton] at hstop
      exact hstop ▸ h.stays
    · have hlt := Nat.lt_of_not_le hle
      obtain ⟨db₁, hheading, hrun⟩ :=
        switchTo_heading h.sound h.active hready cut ho ht hlt
      rw [Proc.Stops, hrun] at hstop
      rcases List.mem_cons.mp hstop with rfl | hstop
      · exact h.stays
      · exact ((Heading.resumes rules st db.blocks db.tip target).stops hheading hstop).1.moved
          (.inr ⟨o, t, ho, ht, hlt⟩)

theorem Consistent.activate_stops (h : Consistent rules st db)
    (hstop : (activate rules.stateRoot target cut).Stops db db') : Moved rules st db db' := by
  unfold activate at hstop
  obtain rfl | ⟨_, hrow, hstop⟩ := hstop.query_bind
  · exact h.stays
  cases hrow
  cases hpending : db.pending with
  | none =>
    rw [hpending] at hstop
    exact h.switchTo_stops hpending hstop
  | some r =>
    rw [hpending] at hstop
    rcases hstop.bind with hstop | ⟨_, _, hstop⟩
    · exact h.recoverIntent_stops hstop
    · obtain ⟨db₁, hlast, hmoved, hdone, -⟩ := h.recovered
      rw [hlast] at hstop
      exact hmoved.trans (hmoved.consistent.switchTo_stops hdone hstop)

theorem activate_ready (hready : db.pending = none) :
    (activate rules.stateRoot target cut).run db =
      (switchTo rules.stateRoot target cut).run db := by
  rw [activate, Proc.read_bind, hready]

variable (cut) in
/-- An activation of a heavier block ends with that tip. -/
theorem Consistent.activated (h : Consistent rules st db) (hready : db.pending = none)
    (hheavier : Outweighs db.blocks target db.tip) : ∃ db',
    ((activate rules.stateRoot target cut).run db).last db = db' ∧ Moved rules st db db' ∧
      db'.pending = none ∧ db'.tip = target ∧
      ((activate rules.stateRoot target cut).run db).result = .ok target := by
  obtain ⟨o, t, ho, ht, hlt⟩ := hheavier
  obtain ⟨db₁, hheading, hrun⟩ :=
    switchTo_heading h.sound h.active hready cut ho ht hlt
  obtain ⟨hlast, hdone, htip, hresult⟩ := hheading.recovered
  rw [activate_ready hready, hrun]
  exact ⟨_, Proc.last_cons, hlast.moved (.inr ⟨o, t, ho, ht, hlt⟩), hdone, htip, hresult⟩

/-! ## Recovery -/

variable (cut) in
/-- The tip that recovery turns to, if it turns. -/
theorem Consistent.followBest_run (h : Consistent rules st db) (hready : db.pending = none) :
    ∃ db', ((followBest rules.stateRoot cut).run db).last db = db' ∧ Moved rules st db db' ∧
      ((followBest rules.stateRoot cut).run db).result = .ok db'.tip ∧
      (∀ s, (followBest rules.stateRoot cut).Stops db s → Moved rules st db s) ∧
      ∀ id b t, db'.blocks.get id = some b → db'.blocks.get db'.tip = some t → b.work ≤ t.work := by
  obtain ⟨t, ht⟩ := h.active.tip
  obtain ⟨id, x, hbest, hx, hmax⟩ := best_spec ht
  have hrun : (followBest rules.stateRoot cut).run db = (if t.chainwork < x.chainwork then do
      let _ ← activate rules.stateRoot id cut
      Proc.query fun s => .ok s.tip
    else Proc.query fun s => .ok s.tip : Proc Fault (Store Id V R B) Id).run db := by
    rw [followBest, Proc.read_bind, Proc.query_bind (fun s : Store Id V R B => s.block s.tip)
      (Store.block_ok.mpr ht), hbest]
  have hle : ∀ {s : Store Id V R B} {y : Block Id R B}, s.blocks = db.blocks →
      x.chainwork ≤ y.chainwork → db.blocks.get s.tip = some y →
      ∀ j b t, s.blocks.get j = some b → s.blocks.get s.tip = some t → b.work ≤ t.work := by
    intro s y hblocks hxy hy j b t hb ht
    rw [hblocks] at hb ht
    rw [hy] at ht
    cases ht
    by_contra hlt
    exact absurd ((hmax j b hb).trans hxy)
      (not_le.mpr ((h.sound.chainwork_lt hy hb).mpr (Nat.lt_of_not_le hlt)))
  by_cases hlt : t.chainwork < x.chainwork
  · rw [if_pos hlt] at hrun
    have hheavier : Outweighs db.blocks id db.tip :=
      ⟨t, x, ht, hx, (h.sound.chainwork_lt ht hx).mp hlt⟩
    obtain ⟨db₁, hlast, hmoved, -, htip, hresult⟩ := h.activated cut hready hheavier
    have hrun' := hrun.trans (Proc.bind_of_ok hresult)
    rw [hlast] at hrun'
    refine ⟨db₁, ?_, hmoved, ?_, fun s hs => ?_, hle hmoved.blocks le_rfl (htip ▸ hx)⟩
    · rw [hrun']
      exact (Proc.last_append _).trans hlast
    · rw [hrun']
      rfl
    · rw [Proc.Stops, hrun] at hs
      rcases Proc.Stops.bind hs with hs | ⟨_, _, hs⟩
      · exact h.activate_stops hs
      · rw [hlast] at hs
        exact hs.query ▸ hmoved
  · rw [if_neg hlt] at hrun
    refine ⟨db, by rw [hrun]; rfl, h.stays, by rw [hrun]; rfl, fun s hs => ?_,
      hle rfl (not_lt.mp hlt) ht⟩
    rw [Proc.Stops, hrun] at hs
    exact Proc.Stops.query hs ▸ h.stays

theorem Consistent.recover_stops (h : Consistent rules st db)
    (hstop : (recover rules.stateRoot cut).Stops db db') : Moved rules st db db' := by
  unfold recover at hstop
  rcases hstop.bind with hstop | ⟨_, _, hstop⟩
  · exact h.recoverIntent_stops hstop
  · obtain ⟨db₁, hlast, hmoved, hdone, -⟩ := h.recovered
    obtain ⟨_, _, _, _, hstops, _⟩ := hmoved.consistent.followBest_run cut hdone
    rw [hlast] at hstop
    exact hmoved.trans (hstops _ hstop)

variable (cut) in
/-- A recovery ends with a tip that no block outweighs. -/
theorem Consistent.recover_ends (h : Consistent rules st db) : ∃ db',
    ((recover rules.stateRoot cut).run db).last db = db' ∧ Moved rules st db db' ∧
      ((recover rules.stateRoot cut).run db).result = .ok db'.tip ∧
      ∀ id b t, db'.blocks.get id = some b → db'.blocks.get db'.tip = some t → b.work ≤ t.work := by
  obtain ⟨db₁, hlast, hmoved, hdone, hresult⟩ := h.recovered
  obtain ⟨db₂, hlast', hmoved', hresult', -, hmax⟩ :=
    hmoved.consistent.followBest_run cut hdone
  have hrun := Proc.bind_of_ok (g := fun _ => followBest rules.stateRoot cut) hresult
  rw [hlast] at hrun
  refine ⟨db₂, ?_, hmoved.trans hmoved', ?_, hmax⟩
  · rw [recover, hrun]
    refine (Proc.last_append _).trans ?_
    rw [hlast]
    exact hlast'
  · rw [recover, hrun]
    exact hresult'

end

end Trillionnium.Ledger
