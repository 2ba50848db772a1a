import Trillionnium.Governance.Steps

/-!
# Timelock and pause discipline

What the guard promises over whole runs. Proposals are numbered by their creation, a parameter's
version counts the executed changes of it, and only the one proposal to lift a pause can lift it.
-/

namespace Trillionnium.Governance

open Lib GovernanceGuard OrdMap

section
variable {g : GovernanceGuard} {call : Call} {delay : U64} {ts : List GuardTurn} {t : GuardTurn}

/-! ## What a turn does to the proposals -/

/-- The proposals of a turn: none is written, a new one is, an open one changes its status, or a
queued one is executed. -/
inductive Touches (t : GuardTurn) : Prop
  | kept (hproposals : t.after.proposals = t.before.proposals)
      (hnonce : t.after.nonce = t.before.nonce) (hcreated : t.label.created = none)
      (hexecution : t.label.execution = none)
  | created {p : Proposal} {now : U64}
      (hproposals : t.after.proposals = t.before.proposals.insert t.before.nonce p)
      (hnonce : t.after.nonce = saturatingAdd t.before.nonce 1)
      (hcreated : t.label.created = some t.before.nonce) (hexecution : t.label.execution = none)
      (hstatus : p.status ≠ .executed) (hschedule : t.label.call.schedule = some (now, p.eta))
      (heta : saturatingAdd now t.before.minTimelockDelaySecs ≤ p.eta)
  | moved {id : ProposalId} {p p' : Proposal} (hget : t.before.proposals.get id = some p)
      (hproposals : t.after.proposals = t.before.proposals.insert id p')
      (hnonce : t.after.nonce = t.before.nonce) (hcreated : t.label.created = none)
      (hexecution : t.label.execution = none) (hopen : p.status ≠ .executed)
      (hstatus : p'.status ≠ .executed) (heta : p'.eta = p.eta)
  | executed {caller : String} {id : ProposalId} {now : U64} {p : Proposal}
      (hget : t.before.proposals.get id = some p)
      (hproposals : t.after.proposals = t.before.proposals.insert id (executedBy caller now p))
      (hnonce : t.after.nonce = t.before.nonce) (hcreated : t.label.created = none)
      (hexecution : t.label.execution = some (caller, id, now)) (hqueued : p.status = .queued)
      (heta : p.eta ≤ now) (hcaller : caller ∈ t.before.executors)

theorem Outcome.before (h : Outcome g call t) : t.before = g := by cases h <;> rfl

theorem Outcome.touches (h : Outcome g call t) : Touches t := by
  cases h with
  | failed => exact .kept rfl rfl rfl rfl
  | returned h =>
    cases h with
    | setRole | setGuardian | setAllowedParamKey | queueAgain | pauseAgain | pause
    | consumeAuditLog => exact .kept rfl rfl rfl rfl
    | propose _ heta => exact .created rfl rfl rfl rfl (by simp [paramProposal]) rfl heta
    | scheduleUnpause _ _ heta =>
      exact .created rfl rfl rfl rfl (by simp [unpauseProposal]) rfl heta
    | queue hget _ _ hpending =>
      exact .moved hget rfl rfl rfl rfl (by simp [hpending]) (by simp) rfl
    | cancel hget hopen =>
      exact .moved hget rfl rfl rfl rfl (fun he => hopen (.inl he)) (by simp) rfl
    | execute hcaller hget _ hqueued heta =>
      exact .executed hget rfl rfl rfl rfl hqueued heta hcaller
    | executeUnpause hcaller _ hget _ hqueued heta =>
      exact .executed hget rfl rfl rfl rfl hqueued heta hcaller

theorem Outcome.keeps_delay (h : Outcome g call t) :
    t.after.minTimelockDelaySecs = t.before.minTimelockDelaySecs := by
  cases h with
  | failed => rfl
  | returned h => cases h <;> rfl

/-! ## Numbers of proposals -/

/-- Identifiers are given out in order, from one. -/
structure Numbered (ts : List GuardTurn) (g : GovernanceGuard) : Prop where
  nonce : g.nonce.toNat = min (createdCount ts + 1) (2 ^ 64 - 1)
  ids : ∀ id p, g.proposals.get id = some p → id.toNat ≤ createdCount ts

namespace Numbered

theorem fresh (h : Numbered ts g) (hcount : createdCount ts + 1 < 2 ^ 64) :
    g.proposals.get g.nonce = none := by
  by_contra hne
  obtain ⟨p, hp⟩ := Option.ne_none_iff_exists'.mp hne
  have hle := h.ids _ p hp
  have hnonce := h.nonce
  omega

theorem touch (h : Numbered ts t.before) (ht : Touches t) : Numbered (ts ++ [t]) t.after := by
  obtain ⟨hnonce₀, hids⟩ := h
  cases ht with
  | kept hproposals hnonce hcreated =>
    refine ⟨?_, fun id p hget => ?_⟩ <;> simp only [createdCount_append, hcreated]
    · exact hnonce ▸ hnonce₀
    · exact hids id p (hproposals ▸ hget)
  | created hproposals hnonce hcreated =>
    refine ⟨?_, fun id p hget => ?_⟩ <;> simp only [createdCount_append, hcreated]
    · rw [hnonce, toNat_saturatingAdd, hnonce₀]
      simp
      omega
    · rw [hproposals] at hget
      obtain ⟨rfl, rfl⟩ | ⟨-, hget⟩ := get_insert_cases hget
      · simp
        omega
      · have := hids id p hget
        simp
        omega
  | moved hget₀ hproposals hnonce hcreated | executed hget₀ hproposals hnonce hcreated =>
    refine ⟨?_, fun id p hget => ?_⟩ <;> simp only [createdCount_append, hcreated]
    · exact hnonce ▸ hnonce₀
    · rw [hproposals] at hget
      obtain ⟨rfl, -⟩ | ⟨-, hget⟩ := get_insert_cases hget
      · exact hids _ _ hget₀
      · exact hids id p hget

end Numbered

/-! ## Timelocks -/

/-- The turn created the proposal `id`, to be executed at `eta` or later, a delay after now. -/
def CreatedAt (delay : U64) (t : GuardTurn) (id : ProposalId) (eta : U64) : Prop :=
  t.label.created = some id ∧ ∃ now, t.label.call.schedule = some (now, eta) ∧
    saturatingAdd now delay ≤ eta

/-- Every proposal still has the time of execution that it was created with. -/
structure Scheduled (delay : U64) (ts : List GuardTurn) (g : GovernanceGuard) : Prop where
  fixed : g.minTimelockDelaySecs = delay
  origin : ∀ id p, g.proposals.get id = some p → ∃ t ∈ ts, CreatedAt delay t id p.eta

theorem Scheduled.touch (h : Scheduled delay ts t.before) (ht : Touches t)
    (hdelay : t.after.minTimelockDelaySecs = t.before.minTimelockDelaySecs) :
    Scheduled delay (ts ++ [t]) t.after := by
  have hold : ∀ id p, t.before.proposals.get id = some p →
      ∃ u ∈ ts ++ [t], CreatedAt delay u id p.eta := by
    intro id p hget
    obtain ⟨u, hu, horigin⟩ := h.origin id p hget
    exact ⟨u, List.mem_append_left _ hu, horigin⟩
  refine ⟨hdelay.trans h.fixed, fun id p hget => ?_⟩
  cases ht with
  | kept hproposals => exact hold id p (hproposals ▸ hget)
  | created hproposals _ hcreated _ _ hschedule heta =>
    rw [hproposals] at hget
    obtain ⟨rfl, rfl⟩ | ⟨-, hget⟩ := get_insert_cases hget
    · exact ⟨t, by simp, hcreated, _, hschedule, h.fixed ▸ heta⟩
    · exact hold id p hget
  | moved hget₀ hproposals _ _ _ _ _ heta =>
    rw [hproposals] at hget
    obtain ⟨rfl, rfl⟩ | ⟨-, hget⟩ := get_insert_cases hget
    · exact heta ▸ hold _ _ hget₀
    · exact hold id p hget
  | executed hget₀ hproposals =>
    rw [hproposals] at hget
    obtain ⟨rfl, rfl⟩ | ⟨-, hget⟩ := get_insert_cases hget
    · exact (hold _ _ hget₀ :)
    · exact hold id p hget

/-! ## Executions -/

theorem not_executes (h : t.label.execution = none) (id : ProposalId) : ¬ Executes t id := by
  rintro ⟨caller, now, he⟩
  simp [h] at he

/-- The executed proposals are those that some turn executed. -/
structure Tallied (ts : List GuardTurn) (g : GovernanceGuard) : Prop where
  executed : ∀ id p, g.proposals.get id = some p → p.status = .executed → ∃ t ∈ ts, Executes t id
  executes : ∀ t ∈ ts, ∀ id, Executes t id → ∃ p, g.proposals.get id = some p ∧
    p.status = .executed
  once : ts.Pairwise fun t u => ∀ id, Executes t id → ¬ Executes u id

theorem Tallied.touch (h : Tallied ts t.before) (ht : Touches t)
    (hfresh : t.label.created ≠ none → t.before.proposals.get t.before.nonce = none) :
    Tallied (ts ++ [t]) t.after := by
  have hold : ∀ id p, t.before.proposals.get id = some p → p.status = .executed →
      ∃ u ∈ ts ++ [t], Executes u id := by
    intro id p hget hstatus
    obtain ⟨u, hu, hexec⟩ := h.executed id p hget hstatus
    exact ⟨u, List.mem_append_left _ hu, hexec⟩
  -- a turn that executes nothing keeps what was executed
  have hquiet : t.label.execution = none → (∀ id p, t.before.proposals.get id = some p →
      p.status = .executed → t.after.proposals.get id = some p) →
      (∀ id p, t.after.proposals.get id = some p → p.status = .executed →
        t.before.proposals.get id = some p) → Tallied (ts ++ [t]) t.after := by
    intro hexecution hkeep hback
    refine ⟨fun id p hget hstatus => hold id p (hback id p hget hstatus) hstatus,
      fun u hu id hexec => ?_, ?_⟩
    · rcases List.mem_append.mp hu with hu | hu
      · obtain ⟨p, hget, hstatus⟩ := h.executes u hu id hexec
        exact ⟨p, hkeep id p hget hstatus, hstatus⟩
      · obtain rfl := List.mem_singleton.mp hu
        exact (not_executes hexecution id hexec).elim
    · refine List.pairwise_append.mpr ⟨h.once, List.pairwise_singleton _ _, fun u _ v hv id _ => ?_⟩
      obtain rfl := List.mem_singleton.mp hv
      exact not_executes hexecution id
  cases ht with
  | kept hproposals _ _ hexecution =>
    exact hquiet hexecution (fun id p hget _ => hproposals ▸ hget) fun id p hget _ =>
      hproposals ▸ hget
  | @created p _ hproposals _ hcreated hexecution hstatus =>
    have hnone := hfresh (by simp [hcreated])
    refine hquiet hexecution (fun id p hget _ => ?_) fun id p hget hexecuted => ?_
    · rw [hproposals, get_insert_ne, hget]
      rintro rfl
      simp [hnone] at hget
    · rw [hproposals] at hget
      obtain ⟨rfl, rfl⟩ | ⟨-, hget⟩ := get_insert_cases hget
      · exact (hstatus hexecuted).elim
      · exact hget
  | @moved id p p' hget₀ hproposals _ _ hexecution hopen hstatus =>
    refine hquiet hexecution (fun id p hget hexecuted => ?_) fun id p hget hexecuted => ?_
    · rw [hproposals, get_insert_ne, hget]
      rintro rfl
      obtain rfl := Option.some.inj (hget₀.symm.trans hget)
      exact hopen hexecuted
    · rw [hproposals] at hget
      obtain ⟨rfl, rfl⟩ | ⟨-, hget⟩ := get_insert_cases hget
      · exact (hstatus hexecuted).elim
      · exact hget
  | @executed caller id now p hget₀ hproposals _ _ hexecution hqueued =>
    have hexec : Executes t id := ⟨caller, now, hexecution⟩
    have hother : ∀ id', Executes t id' → id' = id := by
      rintro id' ⟨caller', now', he⟩
      simp only [hexecution, Option.some.injEq, Prod.mk.injEq] at he
      exact he.2.1.symm
    -- the proposal was queued, so no earlier turn has executed it
    have hnew : ∀ u ∈ ts, ¬ Executes u id := by
      intro u hu hexec'
      obtain ⟨p', hget, hstatus⟩ := h.executes u hu id hexec'
      obtain rfl := Option.some.inj (hget₀.symm.trans hget)
      simp [hqueued] at hstatus
    refine ⟨fun id' p' hget hstatus => ?_, fun u hu id' hexec' => ?_, ?_⟩
    · rw [hproposals] at hget
      obtain ⟨rfl, rfl⟩ | ⟨-, hget⟩ := get_insert_cases hget
      · exact ⟨t, by simp, hexec⟩
      · exact hold id' p' hget hstatus
    · rw [hproposals]
      rcases List.mem_append.mp hu with hu | hu
      · obtain ⟨p', hget, hstatus⟩ := h.executes u hu id' hexec'
        have hne : id ≠ id' := fun he => hnew u hu (he ▸ hexec')
        exact ⟨p', (get_insert_ne hne).trans hget, hstatus⟩
      · obtain rfl := List.mem_singleton.mp hu
        obtain rfl := hother id' hexec'
        exact ⟨_, get_insert_self, rfl⟩
    · refine List.pairwise_append.mpr ⟨h.once, List.pairwise_singleton _ _,
        fun u hu v hv id' hu' hv' => ?_⟩
      obtain rfl := List.mem_singleton.mp hv
      obtain rfl := hother id' hv'
      exact hnew u hu hu'

/-! ## Parameters -/

theorem version_setParam {key key' value : String} {version : U64} :
    (setParam key value version g).version key' = if key = key' then version
      else g.version key' := by
  simp only [GovernanceGuard.version, setParam, get_insert]
  split <;> rfl

theorem value_setParam {key key' value : String} {version : U64} :
    (setParam key value version g).value key' = if key = key' then value else g.value key' := by
  simp only [GovernanceGuard.value, setParam, get_insert]
  split <;> rfl

/-- The version of a parameter counts the changes of it, and its value is that of the last. Every
change was based on the version that it found. -/
structure Versioned (ts : List GuardTurn) (g : GovernanceGuard) : Prop where
  version : ∀ key, (g.version key).toNat = (paramExecutions key ts).length
  value : ∀ key, g.value key =
    ((paramExecutions key ts).getLast?.map Proposal.newValue).getD ""
  based : ∀ key, ∀ p ∈ paramExecutions key ts, ∃ base, p.baseVersion = some base ∧
    base.toNat < (paramExecutions key ts).length
  distinct : ∀ key, (paramExecutions key ts).Pairwise fun p q => p.baseVersion ≠ q.baseVersion

namespace Versioned

theorem quiet (h : Versioned ts g) (hbridge : t.after.bridge.govParams = g.bridge.govParams)
    (hversions : t.after.bridge.paramVersions = g.bridge.paramVersions)
    (hnone : ∀ p, executedProposal t = some p → p.kind ≠ .paramChange) :
    Versioned (ts ++ [t]) t.after := by
  have hsame : ∀ key, paramExecutions key (ts ++ [t]) = paramExecutions key ts := by
    intro key
    rw [paramExecutions_append]
    cases hp : executedProposal t with
    | none => simp
    | some p => simp [hnone p hp]
  have hversion : ∀ key, t.after.version key = g.version key := fun key => by
    rw [GovernanceGuard.version, hversions, GovernanceGuard.version]
  have hvalue : ∀ key, t.after.value key = g.value key := fun key => by
    rw [GovernanceGuard.value, hbridge, GovernanceGuard.value]
  constructor <;> intro key <;> simp only [hsame, hversion, hvalue]
  · exact h.version key
  · exact h.value key
  · exact h.based key
  · exact h.distinct key

/-- A further change of one parameter. -/
theorem change (h : Versioned ts g) {version : U64} (hproposal : executedProposal t = some p)
    (hkind : p.kind = .paramChange) (hbase : p.baseVersion = some (g.version p.paramKey))
    (hnext : version.toNat = (g.version p.paramKey).toNat + 1)
    (hversion : ∀ key, t.after.version key = (setParam p.paramKey p.newValue version g).version key)
    (hvalue : ∀ key, t.after.value key = (setParam p.paramKey p.newValue version g).value key) :
    Versioned (ts ++ [t]) t.after := by
  have hself : paramExecutions p.paramKey (ts ++ [t]) = paramExecutions p.paramKey ts ++ [p] := by
    simp [paramExecutions_append, hproposal, hkind]
  have hother : ∀ key, p.paramKey ≠ key →
      paramExecutions key (ts ++ [t]) = paramExecutions key ts := by
    intro key hne
    simp [paramExecutions_append, hproposal, hne]
  have hcount := h.version p.paramKey
  constructor <;> intro key <;> by_cases hkey : p.paramKey = key
  · subst hkey
    rw [hversion, version_setParam, if_pos rfl, hself, hnext, hcount, List.length_append]
    rfl
  · rw [hversion, version_setParam, if_neg hkey, hother key hkey]
    exact h.version key
  · subst hkey
    rw [hvalue, value_setParam, if_pos rfl, hself]
    simp
  · rw [hvalue, value_setParam, if_neg hkey, hother key hkey]
    exact h.value key
  · subst hkey
    rw [hself]
    intro q hq
    rw [List.length_append, List.length_singleton]
    rcases List.mem_append.mp hq with hq | hq
    · obtain ⟨base, hq, hlt⟩ := h.based p.paramKey q hq
      exact ⟨base, hq, by omega⟩
    · obtain rfl := List.mem_singleton.mp hq
      exact ⟨_, hbase, by omega⟩
  · rw [hother key hkey]
    exact h.based key
  · subst hkey
    rw [hself]
    refine List.pairwise_append.mpr ⟨h.distinct _, List.pairwise_singleton _ _,
      fun q hq r hr heq => ?_⟩
    obtain rfl := List.mem_singleton.mp hr
    obtain ⟨base, hq, hlt⟩ := h.based r.paramKey q hq
    rw [hq, hbase, Option.some.injEq] at heq
    subst heq
    omega
  · rw [hother key hkey]
    exact h.distinct key

theorem outcome (h : Versioned ts g) (ht : Outcome g call t)
    (hcount : executedCount (ts ++ [t]) < 2 ^ 64) : Versioned (ts ++ [t]) t.after := by
  cases ht with
  | failed => exact h.quiet rfl rfl fun p hp => by simp [executedProposal, Entry.execution] at hp
  | returned hs =>
    cases hs with
    | setRole | setGuardian | setAllowedParamKey | queueAgain | pauseAgain | pause
    | consumeAuditLog | propose | scheduleUnpause | queue | cancel =>
      exact h.quiet rfl rfl fun p hp => by
        simp [executedProposal, Entry.execution, Call.execution] at hp
    | executeUnpause _ _ hget hkind =>
      refine h.quiet rfl rfl fun p hp => ?_
      simp only [executedProposal, Entry.execution, Call.execution, Option.bind_some, hget,
        Option.some.injEq] at hp
      simp [← hp, hkind]
    | @execute caller p now id _ hget hkind _ _ hbase =>
      refine h.change (p := p) hget hkind hbase ?_ (fun _ => rfl) fun _ => rfl
      have hlength : (paramExecutions p.paramKey ts).length ≤ executedCount ts :=
        length_paramExecutions_le
      have hversion := h.version p.paramKey
      rw [executedCount_append] at hcount
      simp only [Entry.execution, Call.execution, Option.isSome_some, if_true] at hcount
      rw [toNat_saturatingAdd]
      simp
      omega

end Versioned

/-! ## Pauses -/

/-- At most one proposal waits to lift a pause, and only while there is one. -/
structure PauseGuarded (g : GovernanceGuard) : Prop where
  one : ∀ id id' p p', g.proposals.get id = some p → g.proposals.get id' = some p' →
    p.ActiveUnpause → p'.ActiveUnpause → id = id'
  paused : ∀ id p, g.proposals.get id = some p → p.ActiveUnpause →
    g.bridge.emergencyPaused = true

namespace PauseGuarded
variable {g' : GovernanceGuard}

theorem kept (h : PauseGuarded g) (hproposals : g'.proposals = g.proposals)
    (hpause : g'.bridge.emergencyPaused = g.bridge.emergencyPaused ∨
      g'.bridge.emergencyPaused = true) : PauseGuarded g' := by
  refine ⟨hproposals ▸ h.one, fun id p hget hactive => ?_⟩
  rcases hpause with hpause | hpause
  · exact hpause.trans (h.paused id p (hproposals ▸ hget) hactive)
  · exact hpause

/-- Writing a proposal that does not wait to lift a pause. -/
theorem insert_inactive (h : PauseGuarded g) {id : ProposalId}
    (hproposals : g'.proposals = g.proposals.insert id p)
    (hpause : g'.bridge.emergencyPaused = g.bridge.emergencyPaused) (hp : ¬ p.ActiveUnpause) :
    PauseGuarded g' := by
  have hold : ∀ id' q, g'.proposals.get id' = some q → q.ActiveUnpause →
      g.proposals.get id' = some q := by
    intro id' q hget hactive
    rw [hproposals] at hget
    obtain ⟨-, rfl⟩ | ⟨-, hget⟩ := get_insert_cases hget
    · exact (hp hactive).elim
    · exact hget
  refine ⟨fun i j q r hq hr hqa hra => ?_, fun i q hq hqa => ?_⟩
  · exact h.one i j q r (hold i q hq hqa) (hold j r hr hra) hqa hra
  · exact hpause.trans (h.paused i q (hold i q hq hqa) hqa)

theorem outcome (h : PauseGuarded g) (ht : Outcome g call t) : PauseGuarded t.after := by
  cases ht with
  | failed => exact h
  | returned hs =>
    cases hs with
    | setRole | setGuardian | setAllowedParamKey | queueAgain | pauseAgain | consumeAuditLog =>
      exact h.kept rfl (.inl rfl)
    | pause => exact h.kept rfl (.inr rfl)
    | propose => exact h.insert_inactive rfl rfl (by simp [paramProposal])
    | queue _ _ hkind => exact h.insert_inactive rfl rfl (by simp [hkind])
    | cancel => exact h.insert_inactive rfl rfl (by simp)
    | execute => exact h.insert_inactive rfl rfl (by simp [executedBy])
    | scheduleUnpause _ hpaused _ hnone =>
      have hinactive : ∀ id p, g.proposals.get id = some p → ¬ p.ActiveUnpause :=
        fun id p hget => hnone p (mem_values.mpr ⟨id, hget⟩)
      refine ⟨fun i j q r hq hr hqa hra => ?_, fun i q hq hqa => hpaused⟩
      obtain ⟨rfl, -⟩ | ⟨-, hq⟩ := get_insert_cases hq
      · obtain ⟨rfl, -⟩ | ⟨-, hr⟩ := get_insert_cases hr
        · rfl
        · exact (hinactive j r hr hra).elim
      · exact (hinactive i q hq hqa).elim
    | @executeUnpause caller p now id _ _ hget hkind hqueued =>
      -- the executed proposal was the only one that waited
      have hnone : ∀ i q, (g.proposals.insert id (executedBy caller now p)).get i = some q →
          ¬ q.ActiveUnpause := by
        intro i q hq hactive
        obtain ⟨-, rfl⟩ | ⟨hne, hq⟩ := get_insert_cases hq
        · have hstatus := hactive.2
          simp [executedBy] at hstatus
        · exact hne (h.one i id q p hq hget hactive ⟨hkind, .inr hqueued⟩)
      exact ⟨fun i j q r hq _ hqa _ => (hnone i q hq hqa).elim,
        fun i q hq hqa => (hnone i q hq hqa).elim⟩

end PauseGuarded

/-! ## The discipline -/

/-- An execution that was due, by an executor, of a proposal created a delay before. -/
structure Timely (delay : U64) (earlier : List GuardTurn) (t : GuardTurn) : Prop where
  due : ∀ caller id now, t.label.execution = some (caller, id, now) → ∃ p,
    t.before.proposals.get id = some p ∧ p.eta ≤ now ∧ caller ∈ t.before.executors ∧
      ∃ u ∈ earlier, CreatedAt delay u id p.eta

/-- The turn lifts the pause: an executor who is no guardian executes the waiting proposal of one
who still is. -/
def Lifts (t : GuardTurn) : Prop :=
  ∃ caller id now p, t.label.execution = some (caller, id, now) ∧
    t.before.proposals.get id = some p ∧ p.ActiveUnpause ∧ caller ∈ t.before.executors ∧
    caller ∉ t.before.guardians ∧ p.proposer ∈ t.before.guardians

structure Disciplined (delay : U64) (ts : List GuardTurn) (g : GovernanceGuard) : Prop where
  version : ∀ key, (g.version key).toNat = (paramExecutions key ts).length
  value : ∀ key, g.value key =
    ((paramExecutions key ts).getLast?.map Proposal.newValue).getD ""
  executed : ∀ id p, g.proposals.get id = some p →
    (p.status = .executed ↔ ∃ t ∈ ts, Executes t id)
  timely : ∀ earlier t later, ts = earlier ++ t :: later → Timely delay earlier t
  once : ts.Pairwise fun t u => ∀ id, Executes t id → ¬ Executes u id
  distinct_base : ∀ key, (paramExecutions key ts).Pairwise fun p q => p.baseVersion ≠ q.baseVersion
  one_unpause : ∀ id id' p p', g.proposals.get id = some p → g.proposals.get id' = some p' →
    p.ActiveUnpause → p'.ActiveUnpause → id = id'
  unpause_paused : ∀ id p, g.proposals.get id = some p → p.ActiveUnpause →
    g.bridge.emergencyPaused = true
  lifted : ∀ t ∈ ts, t.before.bridge.emergencyPaused = true →
    t.after.bridge.emergencyPaused = false → Lifts t
  failed : ∀ t ∈ ts, ∀ e, t.label.reply = .error e → t.after = t.before

theorem Outcome.lifts (ht : Outcome g call t) (hpaused : t.before.bridge.emergencyPaused = true)
    (hrunning : t.after.bridge.emergencyPaused = false) : Lifts t := by
  have hkept : t.after.bridge.emergencyPaused = t.before.bridge.emergencyPaused → False :=
    fun he => by simp [he, hpaused] at hrunning
  cases ht with
  | failed => exact (hkept rfl).elim
  | returned hs =>
    cases hs with
    | setRole | setGuardian | setAllowedParamKey | queueAgain | pauseAgain | consumeAuditLog
    | propose | scheduleUnpause | queue | cancel | execute => exact (hkept rfl).elim
    | pause => cases hrunning
    | executeUnpause hcaller hguardian hget hkind hqueued _ hproposer =>
      exact ⟨_, _, _, _, rfl, hget, ⟨hkind, .inr hqueued⟩, hcaller, hguardian, hproposer⟩

theorem Outcome.failed_eq (ht : Outcome g call t) (h : t.label.reply = .error e) :
    t.after = t.before := by
  cases ht with
  | failed => rfl
  | returned => cases h

/-- What one more call keeps. -/
structure Invariant (delay : U64) (ts : List GuardTurn) (g : GovernanceGuard) : Prop where
  numbered : Numbered ts g
  scheduled : Scheduled delay ts g
  tallied : Tallied ts g
  versioned : Versioned ts g
  guarded : PauseGuarded g
  timely : ∀ earlier t later, ts = earlier ++ t :: later → Timely delay earlier t
  outcomes : ∀ t ∈ ts, ∃ call, Outcome t.before call t

theorem Invariant.start {admin guardian : String} :
    Invariant delay [] (new admin guardian delay) where
  numbered := ⟨rfl, by simp [new]⟩
  scheduled := ⟨rfl, by simp [new]⟩
  tallied := ⟨by simp [new], by simp, .nil⟩
  versioned := ⟨fun _ => rfl, fun _ => rfl, by simp [paramExecutions], by simp [paramExecutions]⟩
  guarded := ⟨by simp [new], by simp [new]⟩
  timely := fun earlier t later h => by simp at h
  outcomes := by simp

theorem Invariant.outcome (h : Invariant delay ts g) (ht : Outcome g call t)
    (hcreated : createdCount (ts ++ [t]) < 2 ^ 64)
    (hexecuted : executedCount (ts ++ [t]) < 2 ^ 64) : Invariant delay (ts ++ [t]) t.after := by
  obtain rfl := ht.before
  have htouches := ht.touches
  refine ⟨h.numbered.touch htouches, h.scheduled.touch htouches ht.keeps_delay,
    h.tallied.touch htouches fun hne => h.numbered.fresh ?_, h.versioned.outcome ht hexecuted,
    h.guarded.outcome ht, forall_split_snoc h.timely ⟨fun caller id now he => ?_⟩,
    fun u hu => ?_⟩
  · rw [createdCount_append, if_pos (Option.isSome_iff_ne_none.mpr hne)] at hcreated
    exact hcreated
  · cases htouches with
    | kept _ _ _ hexecution | created _ _ _ hexecution | moved _ _ _ _ hexecution =>
      simp [hexecution] at he
    | executed hget _ _ _ hexecution _ heta hcaller =>
      obtain ⟨rfl, rfl, rfl⟩ : _ ∧ _ ∧ _ := by simpa [hexecution] using he
      exact ⟨_, hget, heta, hcaller, h.scheduled.origin _ _ hget⟩
  · rcases List.mem_append.mp hu with hu | hu
    · exact h.outcomes u hu
    · obtain rfl := List.mem_singleton.mp hu
      exact ⟨call, ht⟩

theorem Invariant.disciplined (h : Invariant delay ts g) : Disciplined delay ts g where
  version := h.versioned.version
  value := h.versioned.value
  executed id p hget := by
    refine ⟨h.tallied.executed id p hget, fun ⟨t, ht, hexec⟩ => ?_⟩
    obtain ⟨p', hget', hstatus⟩ := h.tallied.executes t ht id hexec
    obtain rfl := Option.some.inj (hget.symm.trans hget')
    exact hstatus
  timely := h.timely
  once := h.tallied.once
  distinct_base := h.versioned.distinct
  one_unpause := h.guarded.one
  unpause_paused := h.guarded.paused
  lifted t ht hpaused hrunning := by
    obtain ⟨call, houtcome⟩ := h.outcomes t ht
    exact houtcome.lifts hpaused hrunning
  failed t ht e he := by
    obtain ⟨call, houtcome⟩ := h.outcomes t ht
    exact houtcome.failed_eq he

end

/-- Every run of fewer than `2 ^ 64` proposals and executions is disciplined. -/
theorem run_disciplined (admin guardian : String) (delay : U64) (calls : List Call)
    (hcreated : createdCount (trace (new admin guardian delay) calls) < 2 ^ 64)
    (hexecuted : executedCount (trace (new admin guardian delay) calls) < 2 ^ 64) :
    Disciplined delay (trace (new admin guardian delay) calls)
      (run (new admin guardian delay) calls) := by
  have hinv := run_induction (g := new admin guardian delay)
    (P := fun ts g => createdCount ts < 2 ^ 64 → executedCount ts < 2 ^ 64 →
      Invariant delay ts g) calls (fun _ _ => .start) ?_
  · exact (hinv hcreated hexecuted).disciplined
  · intro ts g call t ih ht hcreated hexecuted
    have hc := hcreated
    have he := hexecuted
    rw [createdCount_append] at hc
    rw [executedCount_append] at he
    exact (ih (by omega) (by omega)).outcome ht hcreated hexecuted

/-- A parameter is changed, and a pause is set and lifted. -/
def sampleCalls : List Call :=
  [.setRole "admin" "alice" true false, .setRole "admin" "exec" false true,
    .setAllowedParamKey "admin" "window" true,
    .propose "alice" "window" "" "120" 160 "why" 100, .queue "alice" 1,
    .execute "exec" 1 159, .execute "exec" 1 160, .execute "exec" 1 161,
    .emergencyPause "guardian" "halt", .scheduleUnpause "guardian" 300 "resume" 200,
    .executeUnpause "exec" 2 300]

theorem sampleCalls_disciplined :
    Disciplined 60 (trace (new "admin" "guardian" 60) sampleCalls)
      (run (new "admin" "guardian" 60) sampleCalls) ∧
    (run (new "admin" "guardian" 60) sampleCalls).value "window" = "120" ∧
    executedCount (trace (new "admin" "guardian" 60) sampleCalls) = 2 :=
  ⟨run_disciplined "admin" "guardian" 60 sampleCalls (by decide +kernel) (by decide +kernel),
    by decide +kernel, by decide +kernel⟩

end Trillionnium.Governance
