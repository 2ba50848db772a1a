import Trillionnium.Ledger.Recovery

/-!
# Runs of the ledger

A run calls `admit`, `activate` and `recover` in any order, and each call may stop after any of its
commits. Every store that a run leaves is consistent.
-/

namespace Trillionnium.Ledger

open Lib

variable {Id V R B : Type} [LinearOrder Id] [DecidableEq V] {rules : Rules Id V R B}
  {db db' : Store Id V R B} {st : Id → OrdMap String V}

theorem initial_consistent : Consistent rules (fun _ => rules.origin) (initial rules) := by
  have hget : ∀ {id : Id} {b : Block Id R B}, (initial rules).blocks.get id = some b →
      id = rules.genesis ∧ b = ⟨none, 0, Bytes.ofNatBE 64 0, none,
        rules.stateRoot rules.origin⟩ := by
    intro id b h
    rw [initial, OrdMap.get_insert] at h
    split at h
    · rename_i he
      cases h
      exact ⟨he.symm, rfl⟩
    · cases h
  have hgenesis : (initial rules).blocks.get rules.genesis =
      some ⟨none, 0, Bytes.ofNatBE 64 0, none, rules.stateRoot rules.origin⟩ :=
        OrdMap.get_insert_self
  have hslot : (initial rules).kv (initial rules).slot = rules.origin := by
    simp only [initial, Function.update_self]
  refine ⟨⟨⟨_, hgenesis, rfl, rfl, rfl⟩, rfl, fun id b hb hne => absurd (hget hb).1 hne,
    fun id b hb => ?_, fun id b hb => ?_, ?_, fun id m hm => ?_⟩,
    ⟨⟨_, hgenesis⟩, le_rfl, hslot, fun _ _ _ => rfl⟩, fun r hr => nomatch hr⟩
  · obtain ⟨-, rfl⟩ := hget hb
    rfl
  · obtain ⟨-, rfl⟩ := hget hb
    exact Bytes.length_ofNatBE ..
  · rw [initial, OrdMap.get_insert_self]
    exact Option.some_ne_none _
  · rw [initial, OrdMap.get_insert] at hm
    split at hm
    · rename_i he
      cases hm
      exact ⟨rfl, he ▸ hgenesis ▸ Option.some_ne_none _⟩
    · cases hm

variable [DecidableEq R] [DecidableEq B]

inductive Call (rules : Rules Id V R B) (db db' : Store Id V R B) : Prop where
  | admission (x : Content Id R B) (now : Nat) (h : (admitBlock rules x now).Stops db db')
  | activate (target : Id) (cut : Bool) (h : (activate rules.stateRoot target cut).Stops db db')
  | recover (cut : Bool) (h : (recover rules.stateRoot cut).Stops db db')

/-- The stores of a run that starts with the initial one. -/
def Reachable (rules : Rules Id V R B) (db : Store Id V R B) : Prop :=
  Relation.ReflTransGen (Call rules) (initial rules) db

/-- What a call does: it moves the tip, or adds a block. -/
theorem Consistent.call (h : Consistent rules st db) (hcall : Call rules db db') :
    Moved rules st db db' ∨ ∃ id x bp state score,
      db.pending = none ∧ Fits rules db st id x bp state score ∧
      db' = Ledger.insertBlock rules id x (st x.header.parent) state (bp.work + score) db := by
  cases hcall with
  | admission x now hstop =>
    rcases h.admit_stops hstop with rfl | ⟨bp, state, score, hready, hfits, hdb⟩
    · exact .inl h.stays
    · exact .inr ⟨_, x, bp, state, score, hready, hfits, hdb⟩
  | activate target cut hstop => exact .inl (h.activate_stops hstop)
  | recover cut hstop => exact .inl (h.recover_stops hstop)

theorem Reachable.consistent (h : Reachable rules db) : ∃ st, Consistent rules st db := by
  induction h with
  | refl => exact ⟨_, initial_consistent⟩
  | tail _ hcall ih =>
    obtain ⟨st, hst⟩ := ih
    rcases hst.call hcall with hmoved | ⟨id, x, bp, state, score, hready, hfits, rfl⟩
    · exact ⟨st, hmoved.consistent⟩
    · exact ⟨_, hst.insertBlock hready hfits⟩

/-! ## Stops of an activation -/

/-- From every store of a run without a pending intent, an activation of a heavier block that stops
after any of its commits is finished by recoveries, stopped any number of times: the readers see the
old tip with its state until they see the new one with its state, and the run ends where the
uninterrupted one ends. A stop before the first commit leaves the store, and recovery leaves it
too. -/
theorem activate_crash_atomic (hreach : Reachable rules db) (hready : db.pending = none)
    {target : Id} (hheavier : Outweighs db.blocks target db.tip) (cut : Bool) :
    ∃ st : Id → OrdMap String V, ∃ last : Store Id V R B,
      Sound rules db st ∧
      ((activate rules.stateRoot target cut).run db).last db = last ∧
      ((activate rules.stateRoot target cut).run db).result = .ok target ∧
      last.tip = target ∧ last.kv last.slot = st target ∧
      db.kv db.slot = st db.tip ∧ (recoverIntent rules.stateRoot).run db = ⟨[], .ok db.tip⟩ ∧
      ∀ db₁ ∈ ((activate rules.stateRoot target cut).run db).commits, ∀ db₂,
        Relation.ReflTransGen (recoverIntent rules.stateRoot).Stops db₁ db₂ →
          db₂.readActive rules.stateRoot = .ok (db₂.tip, db₂.generation, st db₂.tip) ∧
          db₂.kv db₂.slot = st db₂.tip ∧ db₂.tip = (if db₂.pending = none then target else db.tip) ∧
          ((recoverIntent rules.stateRoot).run db₂).last db₂ = last ∧
          ((recoverIntent rules.stateRoot).run db₂).result = .ok target := by
  obtain ⟨st, h⟩ := hreach.consistent
  obtain ⟨o, t, ho, ht, hlt⟩ := hheavier
  obtain ⟨db₁, hheading, hrun⟩ := switchTo_heading h.sound h.active hready cut ho ht hlt
  obtain ⟨hlast, -, htip, hresult⟩ := hheading.recovered
  have hresumes := Heading.resumes rules st db.blocks db.tip target
  rw [activate_ready hready, hrun]
  refine ⟨st, _, h.sound, Proc.last_cons, hresult, htip, ?_, h.active.slot_eq,
    recoverIntent_idle hready, fun db₂ hmem db₃ hstops => ?_⟩
  · exact hlast.consistent.active.slot_eq.trans (by rw [htip])
  · obtain ⟨hheading₂, hlast₂, hresult₂⟩ := hresumes.stops hheading hmem
    obtain ⟨hheading₃, hlast₃, hresult₃⟩ := hresumes.restarts hheading₂ hstops
    refine ⟨hheading₃.consistent.readActive, hheading₃.consistent.active.slot_eq, ?_,
      hlast₃.trans hlast₂, (hresult₃.trans hresult₂).trans hresult⟩
    cases hheading₃ with
    | staging _ _ _ hr hold => rw [hr.pending, if_neg (Option.some_ne_none _), hr.old, hold]
    | published _ _ _ hdone htip₃ => rw [if_pos hdone, htip₃]

/-! ## A store with two branches -/

abbrev SampleStore := Store Nat Nat (List (String × Nat)) (String × Nat)

/-- Transactions and proofs are a text and a number: a transaction writes its number at its text,
and a block is named by the number of its proof. A root is the state itself. -/
def sampleRules : Rules Nat Nat (List (String × Nat)) (String × Nat) where
  params := .devnet
  network := []
  parameters := []
  genesis := 0
  origin := ∅
  stateRoot := OrdMap.entries
  sequenceRoot _ _ := []
  blockId _ proof := proof.2
  size x := if x.1 = "" then 49188 else 159
  txDecode _ := .ok ()
  verifyWork _ _ := .ok ()
  openTask _ _ := true
  execute s txs _ _ _ := .ok (txs.foldl (fun m tx => m.insert tx.1 tx.2) s, [])

def sampleBlock (id parent height : Nat) (key : String) (state : List (String × Nat)) :
    Content Nat (List (String × Nat)) (String × Nat) where
  header := ⟨[], [], parent, height, 1800000000 + 10 * height, 2 ^ 255 - 1, [], [], state,
    [], [], 0⟩
  body := [(key, id)]
  proof := ("", id)

def admitted (id parent height : Nat) (key : String) (state : List (String × Nat))
    (db : SampleStore) : SampleStore :=
  ((admitBlock sampleRules (sampleBlock id parent height key state) 1800000020).run db).last db

def activated (target : Nat) (cut : Bool) (db : SampleStore) : SampleStore :=
  ((activate sampleRules.stateRoot target cut).run db).last db

/-- One branch is active, and the other, which is longer, is admitted. -/
def sampleStore : SampleStore :=
  admitted 3 2 2 "c" [("b", 2), ("c", 3)] <| admitted 2 0 1 "b" [("b", 2)] <|
    activated 1 false <| admitted 1 0 1 "a" [("a", 1)] <| initial sampleRules

theorem sample_reachable : Reachable sampleRules sampleStore := by
  have hadmitted {id parent height : Nat} {key : String} {state : List (String × Nat)}
      {db : SampleStore} (h : Reachable sampleRules db) :
      Reachable sampleRules (admitted id parent height key state db) :=
    h.tail (.admission _ _ Proc.stops_last)
  have hactivated {target : Nat} {cut : Bool} {db : SampleStore} (h : Reachable sampleRules db) :
      Reachable sampleRules (activated target cut db) :=
    h.tail (.activate _ _ Proc.stops_last)
  exact hadmitted (hadmitted (hactivated (hadmitted .refl)))

theorem sample_ready :
    sampleStore.pending = none := Option.isNone_iff_eq_none.mp (by decide +kernel)

theorem sample_outweighs : Outweighs sampleStore.blocks 3 sampleStore.tip := by
  have hworks : (sampleStore.blocks.get sampleStore.tip).map Block.work = some 2 ∧
      (sampleStore.blocks.get 3).map Block.work = some 4 := by decide +kernel
  obtain ⟨o, ho, hwork⟩ := Option.map_eq_some_iff.mp hworks.1
  obtain ⟨t, ht, hwork'⟩ := Option.map_eq_some_iff.mp hworks.2
  exact ⟨o, t, ho, ht, by omega⟩

/-- The switch to the longer branch stops before it commits its intent: recovery finds nothing to
do. -/
theorem activate_stopped_before_intent : Reachable sampleRules sampleStore ∧
    Outweighs sampleStore.blocks 3 sampleStore.tip ∧
    (activate sampleRules.stateRoot 3 true).Stops sampleStore sampleStore ∧
    (((recoverIntent sampleRules.stateRoot).run sampleStore).last sampleStore).tip ≠ 3 :=
  ⟨sample_reachable, sample_outweighs, List.mem_cons_self, by decide +kernel⟩

/-- The switch detaches one block and attaches two. Wherever it stops, its readers see the states of
the two tips. -/
theorem sample_crash_atomic :
    stepsBetween sampleStore 1 3 = .ok [(.detach, 1), (.attach, 2), (.attach, 3)] ∧
    ∀ db ∈ ((activate sampleRules.stateRoot 3 true).run sampleStore).commits,
      ((recoverIntent sampleRules.stateRoot).run db).result = .ok 3 ∧
      (db.kv db.slot).entries = if db.pending = none then [("b", 2), ("c", 3)] else [("a", 1)] := by
  refine ⟨by decide +kernel, fun db hdb => ?_⟩
  obtain ⟨st, last, _, hlast, _, htip, hnew, hold, _, hstops⟩ :=
    activate_crash_atomic sample_reachable sample_ready sample_outweighs true
  obtain ⟨_, hslot, htip, _, hresult⟩ := hstops db hdb db .refl
  have hlast : activated 3 true sampleStore = last := hlast
  have hstates : (sampleStore.kv sampleStore.slot).entries = [("a", 1)] ∧
      ((activated 3 true sampleStore).kv (activated 3 true sampleStore).slot).entries =
        [("b", 2), ("c", 3)] := by
    decide +kernel
  rw [hlast, hnew, hold] at hstates
  refine ⟨hresult, ?_⟩
  rw [hslot, htip]
  split
  · exact hstates.2
  · exact hstates.1

end Trillionnium.Ledger
