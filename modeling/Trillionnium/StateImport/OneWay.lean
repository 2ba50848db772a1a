import Trillionnium.Lib.Trace
import Trillionnium.StateImport.Commitments
import Trillionnium.StateImport.Handoff

/-!
# The handoff as a one-way machine

Transitions on one store through any number of handles: each commits in one transaction and reads
the row back later, with other transitions in between. `Effect` says what a transition does to the
record, and `Staged` what a record holds at each state.
-/

namespace Trillionnium.StateImport

open Lib Pon

/-! ## The codec -/

section
open Reader
variable {sha256 : Bytes → Hash} {r : MigrationHandoffRecord}

theorem reads_readU64 : Reads readU64 (Bytes.be 8 x) x := by
  have htake : Reads (take 8 truncatedRecord) (Bytes.be 8 x) (Bytes.be 8 x) :=
    reads_take Bytes.length_be
  have h : Reads readU64 (Bytes.be 8 x) (Bytes.readBE 64 (Bytes.be 8 x)) := htake.map
  rwa [Bytes.readBE_be (w := 64) rfl] at h

theorem reads_readDigest : Reads readDigest h.bytes h :=
  (reads_take h.size_eq).andThen (reads_lift (getOr_eq_ok.mpr h.ofBytes_bytes))

theorem reads_readHeader : Reads (readHeader bs) bs () :=
  (reads_take rfl).andThen (reads_lift (require_eq_ok.mpr rfl))

theorem reads_readByte : Reads readByte [b] b := by
  have htake : Reads (take 1 truncatedRecord) [b] [b] := reads_take rfl
  exact htake.map

theorem reads_readOptional {α : Type} {p : HandoffReader α} {put : α → Bytes}
    (hp : ∀ a, Reads p (put a) a) (x : Option α) :
    Reads (readOptional p invalid) (putOptional put x) x := by
  cases x with
  | none => exact reads_optional_none
  | some a => exact reads_optional_some (hp a)

theorem reads_readInstall (v : HandoffInstall) : Reads readInstall v.bytes v := by
  refine reads_readDigest.cons ?_
  refine reads_readDigest.cons ?_
  refine reads_readU64.cons ?_
  refine reads_readDigest.cons ?_
  exact reads_pure

theorem reads_readReadback (v : HandoffReadback) : Reads readReadback v.bytes v := by
  iterate 6 refine reads_readDigest.cons ?_
  refine reads_readU64.cons ?_
  refine reads_readU64.cons ?_
  refine reads_readDigest.cons ?_
  exact reads_pure

theorem reads_readCutover (v : CutoverAgreement) : Reads readCutover v.bytes v := by
  iterate 3 refine reads_readDigest.cons ?_
  refine reads_readU64.cons ?_
  refine reads_readU64.cons ?_
  refine reads_readDigest.cons ?_
  refine reads_readDigest.cons ?_
  exact reads_pure

theorem reads_readReceipt (v : MigrationReadinessReceipt) : Reads readReceipt v.bytes v := by
  have hmodule : MigrationReadinessModule.ofU8 v.module.toU8 = .ok v.module := by
    cases v.module <;> rfl
  refine reads_readByte.cons (Reads.check hmodule ?_)
  refine reads_readDigest.cons ?_
  exact reads_pure

/-- What is encoded is read back. -/
theorem reads_readRecord (r : MigrationHandoffRecord) : Reads readRecord r.encode r := by
  have hstate : MigrationHandoffState.ofU8 r.state.toU8 = .ok r.state := by
    cases r.state <;> rfl
  have hencode : r.encode = (r.fields ++ [r.recordDigest.bytes]).flatten := by
    simp [MigrationHandoffRecord.encode, MigrationHandoffRecord.canonicalBytes]
  rw [hencode, MigrationHandoffRecord.fields]
  simp only [List.cons_append, List.nil_append]
  iterate 2 refine reads_readHeader.cons ?_
  refine reads_readByte.cons (Reads.check hstate ?_)
  refine reads_readU64.cons ?_
  iterate 10 refine reads_readDigest.cons ?_
  refine reads_readU64.cons ?_
  refine (reads_readOptional (fun _ => reads_readDigest) _).cons ?_
  refine (reads_readOptional reads_readInstall _).cons ?_
  refine (reads_readOptional reads_readReadback _).cons ?_
  refine (reads_readOptional reads_readCutover _).cons ?_
  iterate 3 refine (reads_readOptional reads_readReceipt _).cons ?_
  refine (reads_readOptional (fun _ => reads_readDigest) _).cons ?_
  refine reads_readDigest.cons ?_
  exact reads_pure

theorem decodeHandoffRecord_encode (h : r.validate sha256 = .ok ()) :
    decodeHandoffRecord sha256 r.encode = .ok r := by
  have hread : readRecord r.encode = .ok (r, []) := by
    have := reads_readRecord r []
    rwa [List.append_nil] at this
  simp only [decodeHandoffRecord, bind_eq_ok, require_eq_ok, pure_eq_ok]
  exact ⟨(r, []), hread, (), rfl, (), h, rfl⟩

theorem readbackHandoff_rowOf (h : r.validate sha256 = .ok ()) :
    readbackHandoff sha256 (rowOf r) = .ok r := by
  simp only [readbackHandoff, bind_eq_ok, require_eq_ok, pure_eq_ok]
  exact ⟨r, decodeHandoffRecord_encode h, (), ⟨rfl, rfl⟩, rfl⟩

end

/-! ## What a transition does -/

open MigrationHandoffState in
/-- The change of a record by a transition that is accepted, up to its revision and digest. -/
inductive Effect (sha256 : Bytes → Hash) (r : MigrationHandoffRecord) :
    HandoffCall → MigrationHandoffRecord → Prop where
  | projectedDelta {projection : MigrationProjection}
      {source target : VerifiedSourceCheckpointContext} {revision : U64} {digest : Hash}
        (hstate : r.state = verifiedSource) :
      Effect sha256 r (.projectedDelta projection source target) { r with
        state := projectedDelta
        targetContextDigest := target.context.canonicalDigest sha256
        projectionDigest := projection.canonicalDigest sha256
        targetRowsDigest := projection.targetRowsDigest
        targetStateRoot := projection.targetStateRoot
        revision := revision
        recordDigest := digest }
  | durableInstall {identity : Hash} {receipt : HandoffInstall} {readback : HandoffReadback}
      {revision : U64} {digest : Hash} (hstate : r.state = projectedDelta)
      (hinstalled : receipt.installedRoot = r.targetStateRoot)
      (hroot : readback.stateRoot = r.targetStateRoot)
      (hrows : readback.rowsDigest = r.targetRowsDigest) :
      Effect sha256 r (.durableInstall identity receipt readback) { r with
        state := durableInstall
        storeIdentityDigest := some identity
        install := some receipt
        readback := some readback
        revision := revision
        recordDigest := digest }
  | readbackCas {readback : HandoffReadback} {revision : U64} {digest : Hash}
      (hstate : r.state = durableInstall) :
      Effect sha256 r (.readbackCas readback) { r with
        state := readbackCas
        revision := revision
        recordDigest := digest }
  | cutoverAgreed {agreement : CutoverAgreement} {revision : U64} {digest : Hash}
      (hstate : r.state = readbackCas) (hplan : agreement.planDigest = r.planDigest)
      (hroot : agreement.targetStateRoot = r.targetStateRoot)
      (hgenesis : agreement.targetGenesisId = r.targetGenesisId)
      (hrequired : agreement.requiredWeight ≠ 0)
      (hsigned : agreement.requiredWeight ≤ agreement.signedWeight) :
      Effect sha256 r (.cutoverAgreed agreement) { r with
        state := cutoverAgreed
        cutover := some agreement
        revision := revision
        recordDigest := digest }
  | runtimeReady {first second third : MigrationReadinessReceipt} {revision : U64} {digest : Hash}
      (hstate : r.state = cutoverAgreed) (hfirst : first.module = .m01)
        (hsecond : second.module = .m02)
      (hthird : third.module = .m08) :
      Effect sha256 r (.runtimeReady (first, second, third)) { r with
        state := runtimeReady
        readiness := (some first, some second, some third)
        revision := revision
        recordDigest := digest }
  | fence {reason : Hash} {revision : U64} {digest : Hash} :
      Effect sha256 r (.fence reason) { r with
        state := fenced
        fenceReasonDigest := some reason
        revision := revision
        recordDigest := digest }

section
variable {sha256 : Bytes → Hash} {r r' : MigrationHandoffRecord} {call : HandoffCall}
  {row row' : HandoffRow}

theorem effect_of_apply (h : r.apply sha256 call = .ok r') (revision : U64) (digest : Hash) :
    Effect sha256 r call { r' with
      revision := revision
      recordDigest := digest } := by
  cases call with
  | projectedDelta projection source target =>
    simp only [MigrationHandoffRecord.apply, MigrationHandoffRecord.projectedDelta, bind_eq_ok,
      require_eq_ok, pure_eq_ok] at h
    obtain ⟨-, ⟨hstate, -⟩, -, -, -, -, rfl⟩ := h
    exact .projectedDelta hstate
  | durableInstall identity receipt readback =>
    simp only [MigrationHandoffRecord.apply, MigrationHandoffRecord.durableInstall, bind_eq_ok,
      require_eq_ok, pure_eq_ok] at h
    obtain ⟨-, ⟨hstate, -, -, -, hinstalled, -, -, -, -, -, -, hroot, hrows, -⟩, rfl⟩ := h
    exact .durableInstall hstate hinstalled hroot hrows
  | readbackCas readback =>
    simp only [MigrationHandoffRecord.apply, MigrationHandoffRecord.readbackCas, bind_eq_ok,
      require_eq_ok, pure_eq_ok] at h
    obtain ⟨-, ⟨hstate, -⟩, rfl⟩ := h
    exact .readbackCas hstate
  | cutoverAgreed agreement =>
    simp only [MigrationHandoffRecord.apply, MigrationHandoffRecord.cutoverAgreed, bind_eq_ok,
      require_eq_ok, pure_eq_ok] at h
    obtain ⟨-, ⟨hstate, hplan, hroot, hgenesis, hrequired, hsigned, -⟩, rfl⟩ := h
    exact .cutoverAgreed hstate hplan hroot hgenesis hrequired hsigned
  | runtimeReady readiness =>
    obtain ⟨first, second, third⟩ := readiness
    simp only [MigrationHandoffRecord.apply, MigrationHandoffRecord.runtimeReady,
      MigrationHandoffRecord.checkReceipt, bind_eq_ok, require_eq_ok, pure_eq_ok] at h
    obtain ⟨-, hstate, -, ⟨-, -, hfirst⟩, -, ⟨-, -, hsecond⟩, -, ⟨-, -, hthird⟩, rfl⟩ := h
    exact .runtimeReady hstate hfirst hsecond hthird
  | fence reason =>
    simp only [MigrationHandoffRecord.apply, MigrationHandoffRecord.fenced, bind_eq_ok,
      require_eq_ok, pure_eq_ok] at h
    obtain ⟨-, -, rfl⟩ := h
    exact .fence

/-- A committed transaction changes the stored record by its transition and counts it. -/
theorem transact_eq_ok (h : transact sha256 call row = .ok (r', row')) :
    ∃ r, readbackHandoff sha256 row = .ok r ∧ Effect sha256 r call r' ∧
      r'.revision.toNat = row.revision + 1 ∧ r'.validate sha256 = .ok () ∧ row' = rowOf r' := by
  simp only [transact, bind_eq_ok, require_eq_ok, pure_eq_ok, Prod.mk.injEq] at h
  obtain ⟨r, hread, next, happly, ⟨⟩, hvalid, -, hlimit, rfl, rfl⟩ := h
  refine ⟨r, hread, effect_of_apply happly _ _, ?_, hvalid, rfl⟩
  have hlt : row.revision + 1 < 2 ^ 64 := lt_trans hlimit (by decide)
  exact Nat.mod_eq_of_lt hlt

/-! ## Stages -/

open MigrationHandoffState

/-- One step along the handoff, or to the fence. -/
def Moves (r r' : MigrationHandoffRecord) : Prop :=
  r'.state = fenced ∨ (r.state, r'.state) ∈ [(verifiedSource, projectedDelta),
    (projectedDelta, durableInstall), (durableInstall, readbackCas), (readbackCas, cutoverAgreed),
    (cutoverAgreed, runtimeReady)]

theorem Effect.moves (h : Effect sha256 r call r') : Moves r r' := by
  cases h with
  | fence => exact .inl rfl
  | projectedDelta hstate | durableInstall hstate | readbackCas hstate | cutoverAgreed hstate
  | runtimeReady hstate =>
    right
    simp [hstate]

/-- The fence is final. -/
theorem Moves.fenced (h : Moves r r') (hfenced : r.state = .fenced) : r'.state = .fenced := by
  rcases h with h | h
  · exact h
  · rw [hfenced] at h
    simp at h

/-- A value once there stays. -/
def Stays {α : Type} (x x' : Option α) : Prop := ∀ a, x = some a → x' = some a

/-- What is recorded before the fence stays. -/
structure Keeps (r r' : MigrationHandoffRecord) : Prop where
  fixed : r'.planDigest = r.planDigest ∧ r'.targetSchemaDigest = r.targetSchemaDigest ∧
    r'.sourceBindingDigest = r.sourceBindingDigest ∧
    r'.sourceContextDigest = r.sourceContextDigest ∧
    r'.sourceStateRoot = r.sourceStateRoot ∧ r'.targetGenesisId = r.targetGenesisId ∧
    r'.rollbackFloor = r.rollbackFloor
  projection : r.projectionDigest ≠ .zero → r'.projectionDigest = r.projectionDigest ∧
    r'.targetContextDigest = r.targetContextDigest ∧ r'.targetRowsDigest = r.targetRowsDigest ∧
    r'.targetStateRoot = r.targetStateRoot
  identity : Stays r.storeIdentityDigest r'.storeIdentityDigest
  install : Stays r.install r'.install
  readback : Stays r.readback r'.readback
  cutover : Stays r.cutover r'.cutover
  readiness : Stays r.readiness.1 r'.readiness.1 ∧ Stays r.readiness.2.1 r'.readiness.2.1 ∧
    Stays r.readiness.2.2 r'.readiness.2.2

/-- The install and the readback of a record are those of its projection. -/
def Installed (r : MigrationHandoffRecord) : Prop :=
  ∃ install readback, r.install = some install ∧ r.readback = some readback ∧
    install.installedRoot = r.targetStateRoot ∧ readback.stateRoot = r.targetStateRoot ∧
    readback.rowsDigest = r.targetRowsDigest

/-- The agreement of a record is on its plan, root and genesis, with enough weight. -/
def Agreed (r : MigrationHandoffRecord) : Prop :=
  ∃ agreement, r.cutover = some agreement ∧ agreement.planDigest = r.planDigest ∧
    agreement.targetStateRoot = r.targetStateRoot ∧ agreement.targetGenesisId = r.targetGenesisId ∧
    0 < agreement.requiredWeight ∧ agreement.requiredWeight ≤ agreement.signedWeight

/-- The receipts of all three modules. -/
def Receipted (r : MigrationHandoffRecord) : Prop :=
  ∃ first second third, r.readiness = (some first, some second, some third) ∧ first.module = .m01 ∧
    second.module = .m02 ∧ third.module = .m08

/-- What a record holds and does not hold yet at its state. -/
structure Staged (r : MigrationHandoffRecord) : Prop where
  unprojected : r.state = verifiedSource → r.projectionDigest = .zero
  uninstalled : r.state = verifiedSource ∨ r.state = projectedDelta →
    r.storeIdentityDigest = none ∧ r.install = none ∧ r.readback = none
  undecided : r.state = verifiedSource ∨ r.state = projectedDelta ∨ r.state = durableInstall ∨
    r.state = readbackCas → r.cutover = none
  unready : r.state ≠ runtimeReady → r.state ≠ fenced → r.readiness = (none, none, none)
  unfenced : r.state ≠ fenced → r.fenceReasonDigest = none
  installed : r.state = durableInstall ∨ r.state = readbackCas ∨ r.state = cutoverAgreed ∨
    r.state = runtimeReady → Installed r
  agreed : r.state = cutoverAgreed ∨ r.state = runtimeReady → Agreed r
  ready : r.state = runtimeReady → Receipted r

theorem Effect.staged (h : Effect sha256 r call r') (hr : Staged r) : Staged r' := by
  cases h with
  | projectedDelta hstate =>
    have huninstalled := hr.uninstalled (.inl hstate)
    have hundecided := hr.undecided (.inl hstate)
    have hunready := hr.unready (by simp [hstate]) (by simp [hstate])
    have hunfenced := hr.unfenced (by simp [hstate])
    exact ⟨by simp, fun _ => huninstalled, fun _ => hundecided, fun _ _ => hunready, fun _ =>
      hunfenced, by simp, by simp, by simp⟩
  | durableInstall hstate hinstalled hroot hrows =>
    have hundecided := hr.undecided (.inr (.inl hstate))
    have hunready := hr.unready (by simp [hstate]) (by simp [hstate])
    have hunfenced := hr.unfenced (by simp [hstate])
    exact ⟨by simp, by simp, fun _ => hundecided, fun _ _ => hunready, fun _ => hunfenced,
      fun _ => ⟨_, _, rfl, rfl, hinstalled, hroot, hrows⟩, by simp, by simp⟩
  | readbackCas hstate =>
    have hundecided := hr.undecided (.inr (.inr (.inl hstate)))
    have hunready := hr.unready (by simp [hstate]) (by simp [hstate])
    have hunfenced := hr.unfenced (by simp [hstate])
    have hinstalled := hr.installed (.inl hstate)
    exact ⟨by simp, by simp, fun _ => hundecided, fun _ _ => hunready, fun _ => hunfenced,
      fun _ => hinstalled, by simp, by simp⟩
  | cutoverAgreed hstate hplan hroot hgenesis hrequired hsigned =>
    have hunready := hr.unready (by simp [hstate]) (by simp [hstate])
    have hunfenced := hr.unfenced (by simp [hstate])
    have hinstalled := hr.installed (.inr (.inl hstate))
    exact ⟨by simp, by simp, by simp, fun _ _ => hunready, fun _ => hunfenced, fun _ => hinstalled,
      fun _ => ⟨_, rfl, hplan, hroot, hgenesis, by bv_omega, hsigned⟩, by simp⟩
  | runtimeReady hstate hfirst hsecond hthird =>
    have hunfenced := hr.unfenced (by simp [hstate])
    have hinstalled := hr.installed (.inr (.inr (.inl hstate)))
    have hagreed := hr.agreed (.inl hstate)
    exact ⟨by simp, by simp, by simp, by simp, fun _ => hunfenced, fun _ => hinstalled,
      fun _ => hagreed, fun _ => ⟨_, _, _, rfl, hfirst, hsecond, hthird⟩⟩
  | fence => exact ⟨by simp, by simp, by simp, by simp, by simp, by simp, by simp, by simp⟩

theorem stays_refl {α : Type} {x : Option α} : Stays x x := fun _ h => h

theorem stays_none {α : Type} {x x' : Option α} (h : x = none) : Stays x x' := by
  rintro a rfl
  cases h

theorem Keeps.refl (r : MigrationHandoffRecord) : Keeps r r :=
  ⟨⟨rfl, rfl, rfl, rfl, rfl, rfl, rfl⟩, fun _ => ⟨rfl, rfl, rfl, rfl⟩, stays_refl, stays_refl,
    stays_refl, stays_refl, stays_refl, stays_refl, stays_refl⟩

theorem Effect.keeps (h : Effect sha256 r call r') (hr : Staged r) : Keeps r r' := by
  cases h with
  | projectedDelta hstate =>
    exact { Keeps.refl r with projection := fun h => absurd (hr.unprojected hstate) h }
  | durableInstall hstate =>
    obtain ⟨hidentity, hinstall, hreadback⟩ := hr.uninstalled (.inr hstate)
    exact { Keeps.refl r with
      identity := stays_none hidentity
      install := stays_none hinstall
      readback := stays_none hreadback }
  | cutoverAgreed hstate =>
    exact { Keeps.refl r with cutover := stays_none (hr.undecided (.inr (.inr (.inr hstate)))) }
  | runtimeReady hstate =>
    have hunready := hr.unready (by simp [hstate]) (by simp [hstate])
    exact { Keeps.refl r with
      readiness := ⟨stays_none (by rw [hunready]), stays_none (by rw [hunready]),
        stays_none (by rw [hunready])⟩ }
  | readbackCas | fence => exact { Keeps.refl r with }

/-- A fence keeps the reason of an earlier one only if it gives the same. -/
theorem Effect.keeps_fence (h : Effect sha256 r call r')
    (hcall : ∀ reason, call = .fence reason → Stays r.fenceReasonDigest (some reason)) :
    Stays r.fenceReasonDigest r'.fenceReasonDigest := by
  cases h with
  | fence => exact hcall _ rfl
  | projectedDelta | durableInstall | readbackCas | cutoverAgreed | runtimeReady => exact stays_refl

end

/-! ## Interleaved calls -/

/-- Where a transition call is: committed and not yet read back, or returned. -/
inductive HandoffPhase where
  | committed (record : MigrationHandoffRecord)
  | returned (result : Except MigrationHandoffError MigrationHandoffRecord)
  deriving DecidableEq

structure Transition where
  id : Nat
  call : HandoffCall
  record : MigrationHandoffRecord

/-- The store with the calls of its handles, and the transitions committed so far. -/
structure HandoffSystem where
  row : HandoffRow
  calls : OrdMap Nat HandoffPhase
  history : List Transition

inductive HandoffEvent where
  | commit (id : Nat) (call : HandoffCall)
  | finish (id : Nat)

namespace HandoffSystem

/-- The transaction of a call, or its readback. -/
def step (sha256 : Bytes → Hash) (s : HandoffSystem) : HandoffEvent → HandoffSystem
  | .commit id call =>
    match s.calls.get id with
    | some _ => s
    | none =>
      match transact sha256 call s.row with
      | .error e => { s with calls := s.calls.insert id (.returned (.error e)) }
      | .ok (next, row) => ⟨row, s.calls.insert id (.committed next),
        s.history ++ [⟨id, call, next⟩]⟩
  | .finish id =>
    match s.calls.get id with
    | some (.committed next) =>
      { s with calls := s.calls.insert id (.returned (confirmTransition sha256 s.row next)) }
    | _ => s

def run (sha256 : Bytes → Hash) (s : HandoffSystem) (events : List HandoffEvent) : HandoffSystem :=
  events.foldl (step sha256) s

/-- The store as `initialize` leaves it. -/
def start (row : HandoffRow) : HandoffSystem := ⟨row, ∅, []⟩

end HandoffSystem

open MigrationHandoffState

def lastRecord (r : MigrationHandoffRecord) (history : List Transition) : MigrationHandoffRecord :=
  (history.getLast?.map Transition.record).getD r

theorem lastRecord_snoc : lastRecord r (history ++ [c]) = c.record := by
  simp [lastRecord]

section
variable {sha256 : Bytes → Hash} {r : MigrationHandoffRecord} {s : HandoffSystem}

/-- A committed transition as a step from the record before it. -/
structure Stepped (sha256 : Bytes → Hash) (r : MigrationHandoffRecord) (before : List Transition)
    (c : Transition) : Prop where
  effect : Effect sha256 (lastRecord r before) c.call c.record
  staged : Staged (lastRecord r before)
  revision : c.record.revision.toNat = before.length + 1

/-- The store holds the record that the history leads to, and its calls know where they are. -/
structure Tracks (sha256 : Bytes → Hash) (r : MigrationHandoffRecord) (s : HandoffSystem) :
    Prop where
  row : s.row = rowOf (lastRecord r s.history)
  valid : (lastRecord r s.history).validate sha256 = .ok ()
  staged : Staged (lastRecord r s.history)
  revision : (lastRecord r s.history).revision.toNat = s.history.length
  steps : ∀ a c b, s.history = a ++ c :: b → Stepped sha256 r a c
  ids : (s.history.map Transition.id).Nodup
  known : ∀ c ∈ s.history, s.calls.get c.id ≠ none
  pending : ∀ id next, s.calls.get id = some (.committed next) → ∃ c ∈ s.history,
    c.id = id ∧ c.record = next
  succeeded : ∀ id next, s.calls.get id = some (.returned (.ok next)) →
    ∃ c ∈ s.history, c.id = id ∧ c.record = next

variable {row : HandoffRow} {result : Except MigrationHandoffError MigrationHandoffRecord}
  {id : Nat}

variable {next : MigrationHandoffRecord} {call : HandoffCall}

namespace Tracks

variable (h : Tracks sha256 r s)
include h

theorem read : readbackHandoff sha256 s.row = .ok (lastRecord r s.history) := by
  rw [h.row]
  exact readbackHandoff_rowOf h.valid

theorem row_revision : s.row.revision = s.history.length := by
  rw [h.row]
  exact h.revision

/-- A call that comes back with what the history says. -/
theorem returns
    (hresult : ∀ next, result = .ok next → ∃ c ∈ s.history, c.id = id ∧ c.record = next) :
    Tracks sha256 r { s with calls := s.calls.insert id (.returned result) } where
  __ := h
  known c hc := by
    rw [OrdMap.get_insert]
    split
    · simp
    · exact h.known c hc
  pending id' next hget := by
    rcases OrdMap.get_insert_cases hget with ⟨-, hphase⟩ | ⟨-, hget⟩
    · cases hphase
    · exact h.pending id' next hget
  succeeded id' next hget := by
    rcases OrdMap.get_insert_cases hget with ⟨rfl, hphase⟩ | ⟨-, hget⟩
    · exact hresult next (HandoffPhase.returned.inj hphase).symm
    · exact h.succeeded id' next hget

theorem commit (hnew : s.calls.get id = none)
    (htransact : transact sha256 call s.row = .ok (next, row)) :
    Tracks sha256 r ⟨row, s.calls.insert id (.committed next),
      s.history ++ [⟨id, call, next⟩]⟩ := by
  obtain ⟨current, hread, heffect, hrevision, hvalid, rfl⟩ := transact_eq_ok htransact
  obtain rfl : lastRecord r s.history = current := Except.ok.inj (h.read.symm.trans hread)
  rw [h.row_revision] at hrevision
  have hmem : ∀ c ∈ s.history, c ∈ s.history ++ [⟨id, call, next⟩] := fun c hc =>
    List.mem_append_left _ hc
  refine ⟨?_, ?_, ?_, ?_, ?_, ?_, ?_, ?_, ?_⟩
  · rw [lastRecord_snoc]
  · rwa [lastRecord_snoc]
  · rw [lastRecord_snoc]
    exact heffect.staged h.staged
  · rw [lastRecord_snoc, hrevision, List.length_append, List.length_singleton]
  · exact forall_split_snoc h.steps ⟨heffect, h.staged, hrevision⟩
  · rw [List.map_append, List.map_singleton]
    refine List.nodup_append.mpr ⟨h.ids, List.nodup_singleton _, ?_⟩
    rintro _ hid _ (hlast : _ ∈ [id]) rfl
    obtain rfl := List.mem_singleton.mp hlast
    obtain ⟨c, hc, rfl⟩ := List.mem_map.mp hid
    exact h.known c hc hnew
  · intro c hc
    rw [OrdMap.get_insert]
    split
    · simp
    · next hne =>
      rcases List.mem_append.mp hc with hc | hc
      · exact h.known c hc
      · obtain rfl := List.mem_singleton.mp hc
        exact absurd rfl hne
  · intro id' next' hget
    rcases OrdMap.get_insert_cases hget with ⟨rfl, hphase⟩ | ⟨-, hget⟩
    · obtain rfl := HandoffPhase.committed.inj hphase
      exact ⟨_, List.mem_append_right _ (List.mem_singleton_self _), rfl, rfl⟩
    · obtain ⟨c, hc, hid⟩ := h.pending id' next' hget
      exact ⟨c, hmem c hc, hid⟩
  · intro id' next' hget
    rcases OrdMap.get_insert_cases hget with ⟨-, hphase⟩ | ⟨-, hget⟩
    · cases hphase
    · obtain ⟨c, hc, hid⟩ := h.succeeded id' next' hget
      exact ⟨c, hmem c hc, hid⟩

theorem confirm_eq_ok :
    confirmTransition sha256 s.row next = .ok next' ↔ lastRecord r s.history = next ∧
      next = next' := by
  simp only [confirmTransition, bind_eq_ok, require_eq_ok, pure_eq_ok, h.read, Except.ok.injEq]
  constructor
  · rintro ⟨_, rfl, -, hsame, rfl⟩
    exact ⟨hsame, hsame.symm⟩
  · rintro ⟨rfl, rfl⟩
    exact ⟨_, rfl, (), rfl, rfl⟩

theorem step (event : HandoffEvent) : Tracks sha256 r (s.step sha256 event) := by
  cases event with
  | commit id call =>
    simp only [HandoffSystem.step]
    split
    · exact h
    · next hnew =>
      split
      · exact h.returns fun _ hok => by cases hok
      · next htransact => exact h.commit hnew htransact
  | finish id =>
    simp only [HandoffSystem.step]
    split
    · next next hget =>
      refine h.returns fun next' hok => ?_
      obtain ⟨-, rfl⟩ := h.confirm_eq_ok.mp hok
      exact h.pending id _ hget
    · exact h

end Tracks

/-! ## Calm runs -/

/-- The record of a call that is committed and not yet read back. -/
def HandoffPhase.unread : HandoffPhase → Option MigrationHandoffRecord
  | committed record => some record
  | returned _ => none

/-- A fence that commits on a fenced record gives the reason that is recorded, and a call is read
back before the next one commits. -/
def Quiet (sha256 : Bytes → Hash) (s : HandoffSystem) : HandoffEvent → Prop
  | .commit id (.fence reason) =>
    s.calls.get id = none → (transact sha256 (.fence reason) s.row).isOk →
      ∀ r ∈ (readbackHandoff sha256 s.row).toOption, ∀ recorded ∈ r.fenceReasonDigest,
      recorded = reason
  | .commit _ _ => True
  | .finish id =>
    ∀ next ∈ (s.calls.get id).bind HandoffPhase.unread, s.row.revision = next.revision.toNat

instance : (event : HandoffEvent) → Decidable (Quiet sha256 s event)
  | .commit id (.fence reason) => inferInstanceAs (Decidable (s.calls.get id = none →
      (transact sha256 (.fence reason) s.row).isOk → ∀ r ∈ (readbackHandoff sha256 s.row).toOption,
        ∀ recorded ∈ r.fenceReasonDigest, recorded = reason))
  | .commit _ (.projectedDelta ..) | .commit _ (.durableInstall ..) | .commit _ (.readbackCas ..)
  | .commit _ (.cutoverAgreed ..) | .commit _ (.runtimeReady ..) => inferInstanceAs (Decidable True)
  | .finish id => inferInstanceAs (Decidable
      (∀ next ∈ (s.calls.get id).bind HandoffPhase.unread, s.row.revision = next.revision.toNat))

/-- Every event of the run is quiet where it happens. -/
def Calm (sha256 : Bytes → Hash) (s : HandoffSystem) : List HandoffEvent → Prop
  | [] => True
  | event :: events => Quiet sha256 s event ∧ Calm sha256 (s.step sha256 event) events

instance decidableCalm : (s : HandoffSystem) → (events : List HandoffEvent) →
    Decidable (Calm sha256 s events)
  | _, [] => inferInstanceAs (Decidable True)
  | s, event :: events =>
    have := decidableCalm (s.step sha256 event) events
    inferInstanceAs (Decidable (_ ∧ _))

/-- What calm runs keep besides: no committed call fails, and a fence reason stays. -/
structure Settled (r : MigrationHandoffRecord) (s : HandoffSystem) : Prop where
  unfailed : ∀ c ∈ s.history, s.calls.get c.id = some (.committed c.record) ∨
    s.calls.get c.id = some (.returned (.ok c.record))
  reasons : ∀ a c b, s.history = a ++ c :: b →
    Stays (lastRecord r a).fenceReasonDigest c.record.fenceReasonDigest

namespace Settled

/-- A call that is not in the history returns. -/
theorem returns (h : Settled r s) (hresult : ∀ c ∈ s.history, c.id = id → result = .ok c.record) :
    Settled r { s with calls := s.calls.insert id (.returned result) } where
  __ := h
  unfailed c hc := by
    rw [OrdMap.get_insert]
    split
    · next hid =>
      rw [hresult c hc hid.symm]
      exact .inr rfl
    · exact h.unfailed c hc

theorem commit (h : Settled r s) (ht : Tracks sha256 r s) (hnew : s.calls.get id = none)
    (htransact : transact sha256 call s.row = .ok (next, row))
    (hquiet : Quiet sha256 s (.commit id call)) :
    Settled r ⟨row, s.calls.insert id (.committed next), s.history ++ [⟨id, call, next⟩]⟩ := by
  obtain ⟨current, hread, heffect, -, -, rfl⟩ := transact_eq_ok htransact
  obtain rfl : lastRecord r s.history = current := Except.ok.inj (ht.read.symm.trans hread)
  refine ⟨fun c hc => ?_, forall_split_snoc h.reasons (heffect.keeps_fence ?_)⟩
  · rw [OrdMap.get_insert]
    rcases List.mem_append.mp hc with hc | hc
    · have hne : id ≠ c.id := fun hid => ht.known c hc (hid ▸ hnew)
      rw [if_neg hne]
      exact h.unfailed c hc
    · obtain rfl := List.mem_singleton.mp hc
      exact .inl (if_pos rfl)
  · rintro reason rfl recorded hrecorded
    have hok : (transact sha256 (.fence reason) s.row).isOk := by
      rw [htransact]
      rfl
    have hreason := hquiet hnew hok _ (toOption_eq_some.mpr ht.read) recorded hrecorded
    rw [hreason]

/-- The revision of the row tells the call that wrote it. -/
theorem lastRecord_of_revision (ht : Tracks sha256 r s) (hc : c ∈ s.history)
    (hrevision : s.row.revision = c.record.revision.toNat) : lastRecord r s.history = c.record := by
  obtain ⟨a, b, hsplit⟩ := List.append_of_mem hc
  have hlength := (ht.steps a c b hsplit).revision
  rw [← hrevision, ht.row_revision, hsplit, List.length_append, List.length_cons] at hlength
  obtain rfl : b = [] := List.length_eq_zero_iff.mp (by omega)
  rw [hsplit, lastRecord_snoc]

theorem step (h : Settled r s) (ht : Tracks sha256 r s)
    (hquiet : Quiet sha256 s event) : Settled r (s.step sha256 event) := by
  cases event with
  | commit id call =>
    simp only [HandoffSystem.step]
    split
    · exact h
    · next hnew =>
      split
      · refine h.returns fun c hc hid => ?_
        exact absurd (hid ▸ hnew) (ht.known c hc)
      · next htransact => exact h.commit ht hnew htransact hquiet
  | finish id =>
    simp only [HandoffSystem.step]
    split
    · next next hget =>
      refine h.returns fun c hc hid => ?_
      -- the call committed with this id is the one that is read back
      obtain rfl : c.record = next := by
        rcases h.unfailed c hc with hphase | hphase
        · rw [hid, hget] at hphase
          exact (HandoffPhase.committed.inj (Option.some.inj hphase)).symm
        · rw [hid, hget] at hphase
          cases hphase
      exact ht.confirm_eq_ok.mpr ⟨lastRecord_of_revision ht hc (hquiet _ (by rw [hget]; rfl)), rfl⟩
    · exact h

end Settled

theorem Tracks.run (h : Tracks sha256 r s) (events : List HandoffEvent) :
    Tracks sha256 r (s.run sha256 events) := by
  induction events generalizing s with
  | nil => exact h
  | cons event events ih => exact ih (h.step event)

theorem Settled.run (h : Settled r s) (ht : Tracks sha256 r s)
    (hcalm : Calm sha256 s events) : Settled r (s.run sha256 events) := by
  induction events generalizing s with
  | nil => exact h
  | cons event events ih => exact ih (h.step ht hcalm.1) (ht.step event) hcalm.2

structure Fresh (sha256 : Bytes → Hash) (r : MigrationHandoffRecord) (row : HandoffRow) : Prop where
  row : row = rowOf r
  valid : r.validate sha256 = .ok ()
  state : r.state = verifiedSource
  revision : r.revision = 0
  staged : Staged r

theorem fresh_of_created
    (hnew : MigrationHandoffRecord.newVerifiedSource sha256 plan binding context floor = .ok r)
    (hinit : initializeHandoff sha256 r = .ok row) : Fresh sha256 r row := by
  simp only [initializeHandoff, bind_eq_ok, require_eq_ok, pure_eq_ok] at hinit
  obtain ⟨⟨⟩, hvalid, -, -, -, -, rfl⟩ := hinit
  simp only [MigrationHandoffRecord.newVerifiedSource, bind_eq_ok, require_eq_ok,
    pure_eq_ok] at hnew
  obtain ⟨-, -, -, -, rfl⟩ := hnew
  refine ⟨rfl, hvalid, rfl, rfl, ?_⟩
  exact ⟨fun _ => rfl, fun _ => ⟨rfl, rfl, rfl⟩, fun _ => rfl, fun _ _ => rfl, fun _ =>
    rfl, by simp, by simp, by simp⟩

theorem Fresh.tracks (h : Fresh sha256 r row) : Tracks sha256 r (.start row) := by
  refine ⟨h.row, h.valid, h.staged, ?_, ?_, List.nodup_nil, ?_, ?_, ?_⟩
  · simp [lastRecord, HandoffSystem.start, h.revision]
  all_goals simp [HandoffSystem.start]

theorem settled_start : Settled r (.start row) := by
  constructor <;> simp [HandoffSystem.start]

/-- In a calm run the record moves one step at a time or to the fence, every committed call succeeds
and is counted once, a failed call leaves no trace, what was recorded stays, the stored bytes decode
to the record, and a ready runtime has its install, readback, agreement and receipts. -/
theorem handoff_is_one_way {plan : MigrationPlan} {binding : FinalizedSourceBinding}
    {context : VerifiedSourceCheckpointContext} {floor : U64} {row : HandoffRow}
    {events : List HandoffEvent}
    (hnew : MigrationHandoffRecord.newVerifiedSource sha256 plan binding context floor = .ok r)
    (hinit : initializeHandoff sha256 r = .ok row) (hcalm : Calm sha256 (.start row) events) :
    let s := (HandoffSystem.start row).run sha256 events
    let current := lastRecord r s.history
    (∀ a c b, s.history = a ++ c :: b →
      Moves (lastRecord r a) c.record ∧ ((lastRecord r a).state = fenced →
        c.record.state = fenced) ∧
      Keeps (lastRecord r a) c.record ∧
      Stays (lastRecord r a).fenceReasonDigest c.record.fenceReasonDigest) ∧
    r.state = verifiedSource ∧
    current.revision.toNat = s.history.length ∧ (s.history.map Transition.id).Nodup ∧
    (∀ c ∈ s.history, s.calls.get c.id = some (.committed c.record) ∨
      s.calls.get c.id = some (.returned (.ok c.record))) ∧
    (∀ id next, s.calls.get id = some (.returned (.ok next)) →
      ∃ c ∈ s.history, c.id = id ∧ c.record = next) ∧
    s.row = rowOf current ∧ decodeHandoffRecord sha256 s.row.record = .ok current ∧
    (current.state = runtimeReady → Installed current ∧ Agreed current ∧ Receipted current) := by
  have hfresh := fresh_of_created hnew hinit
  have ht := hfresh.tracks.run events
  have hs := settled_start.run hfresh.tracks hcalm
  refine ⟨fun a c b hsplit => ?_, hfresh.state, ht.revision, ht.ids, hs.unfailed,
    ht.succeeded, ht.row, ?_, fun hready => ?_⟩
  · obtain ⟨heffect, hstaged, -⟩ := ht.steps a c b hsplit
    exact ⟨heffect.moves, heffect.moves.fenced, heffect.keeps hstaged, hs.reasons a c b hsplit⟩
  · rw [ht.row]
    exact decodeHandoffRecord_encode ht.valid
  · exact ⟨ht.staged.installed (.inr (.inr (.inr hready))), ht.staged.agreed (.inr hready),
      ht.staged.ready hready⟩

end

/-! ## One handoff -/

def sampleExport : VerifiedExport :=
  ⟨sampleHeader, residue (orderedRowsMessage (sampleRows.map ExportRow.rowDigest))⟩

def sampleBinding : FinalizedSourceBinding := .fromVerifiedExport residue sampleExport

/-- A plan for a source chain, into a target that is always the same. -/
def planFor (chain : Hash) : MigrationPlan :=
  let plan : MigrationPlan := ⟨chain, .ofByte 2, .ofByte 4, 9, sampleHeader.headerDigest,
    .ofByte 21, .ofByte 22, .ofByte 23, .ofByte 24, true, true, .zero⟩
  { plan with planDigest := plan.canonicalDigest residue }

/-- The source rows as they are, with the export that they are said to come from. -/
def projectionFrom (plan : MigrationPlan) (exportRoot rowsDigest : Hash) : MigrationProjection :=
  let rows := sampleRows.map fun row => ⟨row.space, row.key, row.value⟩
  ⟨plan.planDigest, exportRoot, rowsDigest, 3, targetRowsDigest residue rows,
    targetRowsDigest residue rows, plan.targetGenesisId, rows⟩

def contextAt (height : U64) (stateRoot : Hash) : VerifiedSourceCheckpointContext :=
  ⟨⟨.ofByte 1, .ofByte 2, .ofByte 31, .ofByte 32, height, 1, stateRoot, .ofByte 33, .ofByte 34⟩,
    .ofByte 35⟩

/-- The record that starts a handoff of the export. -/
def firstRecord (plan : MigrationPlan) : MigrationHandoffRecord :=
  MigrationHandoffRecord.sealed residue
    ⟨.verifiedSource, 0, plan.planDigest, plan.targetSchemaDigest, sampleBinding.bindingDigest,
      (contextAt 9 (.ofByte 3)).context.canonicalDigest residue, .ofByte 3, .zero, .zero, .zero,
      plan.targetGenesisId, .zero, 1, none, none, none, none, (none, none, none), none, .zero⟩

/-- The calls that carry a projection to the runtime. -/
def callsOf (plan : MigrationPlan) (projection : MigrationProjection) : List HandoffCall :=
  let source := contextAt 9 (.ofByte 3)
  let target := contextAt 10 projection.targetStateRoot
  let readback : HandoffReadback := ⟨plan.planDigest, plan.targetSchemaDigest,
    source.context.canonicalDigest residue, target.context.canonicalDigest residue,
    projection.targetRowsDigest, projection.targetStateRoot, 3, 1, .ofByte 41⟩
  let agreement : CutoverAgreement :=
    ⟨plan.planDigest, projection.targetStateRoot, plan.targetGenesisId, 3, 2, .ofByte 42, .zero⟩
  [.projectedDelta projection source target,
    .durableInstall (.ofByte 40) ⟨.ofByte 3, projection.targetStateRoot, 1, .ofByte 41⟩ readback,
    .readbackCas readback,
    .cutoverAgreed { agreement with
      agreementDigest := MigrationHandoffRecord.agreementDigest residue agreement },
    .runtimeReady (⟨.m01, .ofByte 51⟩, ⟨.m02, .ofByte 52⟩, ⟨.m08, .ofByte 58⟩)]

def eventsOf (calls : List HandoffCall) : List HandoffEvent :=
  calls.zipIdx.flatMap fun (call, id) => [.commit id call, .finish id]

def samplePlan : MigrationPlan := planFor (.ofByte 1)

def sampleCalls : List HandoffCall :=
  callsOf samplePlan (projectionFrom samplePlan sampleHeader.exportRoot
    sampleExport.orderedRowsDigest)

theorem newVerifiedSource_sample : MigrationHandoffRecord.newVerifiedSource residue samplePlan
    sampleBinding (contextAt 9 (.ofByte 3)) 1 = .ok (firstRecord samplePlan) := by decide +kernel

theorem initializeHandoff_sample :
    initializeHandoff residue (firstRecord samplePlan) = .ok (rowOf (firstRecord samplePlan)) := by
  decide +kernel

def sampleRun (events : List HandoffEvent) : HandoffSystem :=
  (HandoffSystem.start (rowOf (firstRecord samplePlan))).run residue events

/-- Calls one after another reach the runtime. -/
theorem sample_handoff_is_one_way :
    let s := (HandoffSystem.start (rowOf (firstRecord samplePlan))).run residue
      (eventsOf sampleCalls)
    let current := lastRecord (firstRecord samplePlan) s.history
    s.row.revision = 5 ∧ current.state = .runtimeReady ∧ Installed current ∧ Agreed current ∧
    Receipted current ∧ decodeHandoffRecord residue s.row.record = .ok current := by
  have hcalm : Calm residue (.start (rowOf (firstRecord samplePlan))) (eventsOf sampleCalls) := by
    decide +kernel
  obtain ⟨-, -, -, -, -, -, -, hdecode, hready⟩ :=
    handoff_is_one_way newVerifiedSource_sample initializeHandoff_sample hcalm
  have hstate : (sampleRun (eventsOf sampleCalls)).row.revision = 5 ∧
      (lastRecord (firstRecord samplePlan) (sampleRun (eventsOf sampleCalls)).history).state =
        .runtimeReady := by decide +kernel
  unfold sampleRun at hstate
  obtain ⟨hinstalled, hagreed, hreceipted⟩ := hready hstate.2
  exact ⟨hstate.1, hstate.2, hinstalled, hagreed, hreceipted, hdecode⟩

/-- A second fence replaces the reason of the first, and a call that committed fails when another
one commits before it reads back. -/
theorem second_fence_and_raced_commit :
    (MigrationHandoffRecord.newVerifiedSource residue samplePlan sampleBinding
      (contextAt 9 (.ofByte 3)) 1 = .ok (firstRecord samplePlan) ∧
    initializeHandoff residue (firstRecord samplePlan) = .ok (rowOf (firstRecord samplePlan))) ∧
    ((sampleRun (eventsOf [.fence (.ofByte 61), .fence (.ofByte 62)])).history.map fun c =>
      c.record.fenceReasonDigest) = [some (.ofByte 61), some (.ofByte 62)] ∧
    let s := sampleRun ((sampleCalls.take 1).map (.commit 0) ++ [.commit 1 (.fence (.ofByte 61)),
      .finish 0])
    s.calls.get 0 = some (.returned (.error (.protocol .durableReadbackMismatch))) ∧
    s.history.map (fun c => (c.id, c.record.state)) = [(0, .projectedDelta), (1, .fenced)] ∧
    s.row.revision = 2 := by
  refine ⟨⟨newVerifiedSource_sample, initializeHandoff_sample⟩, ?_⟩
  decide +kernel

end Trillionnium.StateImport
