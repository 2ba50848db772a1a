import Trillionnium.StateImport.OneWay
import Mathlib.Data.List.Induction

/-!
# Where a ready record comes from

The record keeps digests of its plan, of its binding and of its projection, and no transition
compares what they were taken from. A projection that `project_and_recompute_v0` returned ties them
together, because it checks the plan against the export.
-/

namespace Trillionnium.StateImport

open Lib Pon

section
variable {sha256 : Bytes → Hash} {r : MigrationHandoffRecord} {s : HandoffSystem}

/-- A record past its source was given a projection, whose digest it keeps. -/
theorem exists_projection {history : List Transition} (hstate : r.state = .verifiedSource)
    (hsteps : ∀ a c b, history = a ++ c :: b → Stepped sha256 r a c)
    (hlast : (lastRecord r history).state ≠ .verifiedSource)
    (hopen : (lastRecord r history).state ≠ .fenced) :
    ∃ c ∈ history, ∃ projection source target, c.call = .projectedDelta projection source target ∧
      (lastRecord r history).projectionDigest = projection.canonicalDigest sha256 := by
  induction history using List.reverseRecOn with
  | nil => exact absurd hstate hlast
  | append_singleton history c ih =>
    obtain ⟨heffect, -, -⟩ := hsteps history c [] rfl
    have hbefore : ∀ a c' b, history = a ++ c' :: b → Stepped sha256 r a c' := fun a c' b hsplit =>
      hsteps a c' (b ++ [c]) (by rw [hsplit, List.append_assoc, List.cons_append])
    rw [lastRecord_snoc] at hlast hopen ⊢
    obtain ⟨id, call, record⟩ := c
    -- a later transition leaves the digest of the projection alone
    have hearlier (hne : (lastRecord r history).state ≠ .verifiedSource)
        (hne' : (lastRecord r history).state ≠ .fenced)
        (hdigest : record.projectionDigest = (lastRecord r history).projectionDigest) :
        ∃ c ∈ history ++ [⟨id, call, record⟩], ∃ projection source target,
          c.call = .projectedDelta projection source target ∧
          record.projectionDigest = projection.canonicalDigest sha256 := by
      obtain ⟨c, hc, hprojection⟩ := ih hbefore hne hne'
      rw [hdigest]
      exact ⟨c, List.mem_append_left _ hc, hprojection⟩
    cases heffect with
    | projectedDelta =>
      exact ⟨_, List.mem_append_right _ (List.mem_singleton_self _), _, _, _, rfl, rfl⟩
    | fence => exact absurd rfl hopen
    | durableInstall hstate | readbackCas hstate | cutoverAgreed hstate | runtimeReady hstate =>
      exact hearlier (by simp [hstate]) (by simp [hstate]) rfl

theorem lastRecord_source {history : List Transition}
    (hsteps : ∀ a c b, history = a ++ c :: b → Stepped sha256 r a c) :
    (lastRecord r history).planDigest = r.planDigest ∧
      (lastRecord r history).sourceBindingDigest = r.sourceBindingDigest := by
  induction history using List.reverseRecOn with
  | nil => exact ⟨rfl, rfl⟩
  | append_singleton history c ih =>
    obtain ⟨heffect, hstaged, -⟩ := hsteps history c [] rfl
    obtain ⟨hplan, hbinding⟩ := ih fun a c' b hsplit =>
      hsteps a c' (b ++ [c]) (by rw [hsplit, List.append_assoc, List.cons_append])
    obtain ⟨hplan', -, hbinding', -⟩ := (heffect.keeps hstaged).fixed
    rw [lastRecord_snoc]
    exact ⟨hplan'.trans hplan, hbinding'.trans hbinding⟩

/-- A call whose projection, if it has one, was computed for the plan from the export. -/
def Computed (sha256 : Bytes → Hash) (plan : MigrationPlan) (export_ : VerifiedExport) :
    HandoffCall → Prop
  | .projectedDelta projection _ _ => ∃ (P R : Type) (projector : ExportRow →
      Except P (Option TargetRow)) (rootBuilder : RootBuilder R) (sourceRows : List ExportRow),
      projectAndRecompute sha256 projector rootBuilder plan export_ sourceRows = .ok projection
  | _ => True

theorem newVerifiedSource_eq_ok {plan : MigrationPlan} {binding : FinalizedSourceBinding}
    (h : MigrationHandoffRecord.newVerifiedSource sha256 plan binding context floor = .ok r) :
    r.planDigest = plan.planDigest ∧ r.sourceBindingDigest = binding.bindingDigest := by
  simp only [MigrationHandoffRecord.newVerifiedSource, bind_eq_ok, require_eq_ok, pure_eq_ok] at h
  obtain ⟨-, -, -, -, rfl⟩ := h
  exact ⟨rfl, rfl⟩

theorem projectAndRecompute_eq_ok {P R : Type} {projector : ExportRow → Except P (Option TargetRow)}
    {rootBuilder : RootBuilder R}
    (h : projectAndRecompute sha256 projector rootBuilder plan export_ sourceRows =
      .ok projection) :
    plan.validate sha256 export_ = .ok () ∧
      projection.sourceExportRoot = export_.header.exportRoot ∧
      projection.sourceOrderedRowsDigest = export_.orderedRowsDigest := by
  simp only [projectAndRecompute, bind_eq_ok, mapError_eq_ok, require_eq_ok, pure_eq_ok] at h
  obtain ⟨⟨⟩, hplan, -, -, _, -, _, -, -, -, rfl⟩ := h
  exact ⟨hplan, rfl, rfl⟩

/-- When every committed projection was computed for the plan from the export of the binding, a
record that is ready comes from a plan and a binding of the same source, and its projection from
that binding. -/
theorem ready_record_names_its_source {plan : MigrationPlan} {export_ : VerifiedExport}
    {context : VerifiedSourceCheckpointContext} {floor : U64} {row : HandoffRow}
    {events : List HandoffEvent}
    (hnew : MigrationHandoffRecord.newVerifiedSource sha256 plan
      (.fromVerifiedExport sha256 export_) context floor = .ok r)
    (hinit : initializeHandoff sha256 r = .ok row)
    (hcomputed : ∀ c ∈ ((HandoffSystem.start row).run sha256 events).history,
      Computed sha256 plan export_ c.call) :
    let s := (HandoffSystem.start row).run sha256 events
    let record := lastRecord r s.history
    let binding := FinalizedSourceBinding.fromVerifiedExport sha256 export_
    record.state = .runtimeReady →
      (plan.sourceChainId = binding.sourceChainId ∧
        plan.sourceProtocolDigest = binding.sourceProtocolDigest ∧
        plan.sourceSchemaDigest = binding.sourceSchemaDigest ∧
        plan.sourceHeight = binding.sourceHeight ∧
        plan.sourceExportHeaderDigest = binding.exportHeaderDigest) ∧
      record.planDigest = plan.planDigest ∧ record.sourceBindingDigest = binding.bindingDigest ∧
      ∃ c ∈ s.history, ∃ projection source target,
        c.call = .projectedDelta projection source target ∧
        record.projectionDigest = projection.canonicalDigest sha256 ∧
        projection.sourceExportRoot = binding.exportRoot ∧
        projection.sourceOrderedRowsDigest = binding.orderedRowsDigest := by
  intro s record binding hready
  have hfresh := fresh_of_created hnew hinit
  have ht : Tracks sha256 r s := hfresh.tracks.run events
  obtain ⟨c, hc, projection, source, target, hcall, hdigest⟩ :=
    exists_projection hfresh.state ht.steps (by rw [hready]; simp) (by rw [hready]; simp)
  obtain ⟨hplan, hsource⟩ : plan.validate sha256 export_ = .ok () ∧
      projection.sourceExportRoot = export_.header.exportRoot ∧
      projection.sourceOrderedRowsDigest = export_.orderedRowsDigest := by
    have hprojection := hcomputed c hc
    rw [hcall] at hprojection
    obtain ⟨P, R, projector, rootBuilder, sourceRows, hprojection⟩ := hprojection
    exact projectAndRecompute_eq_ok hprojection
  obtain ⟨-, -, -, -, -, hchain, hprotocol, hschema, hheight, hheader, -⟩ := require_eq_ok.mp hplan
  obtain ⟨hkept, hkept'⟩ := lastRecord_source ht.steps
  obtain ⟨hfirst, hfirst'⟩ := newVerifiedSource_eq_ok hnew
  exact ⟨⟨hchain, hprotocol, hschema, hheight, hheader⟩, hkept.trans hfirst,
    hkept'.trans hfirst', c, hc, projection, source, target, hcall, hdigest, hsource⟩

end

/-! ## Two handoffs -/

theorem sample_ready_record_names_its_source :
    let s := (HandoffSystem.start (rowOf (firstRecord samplePlan))).run residue
      (eventsOf sampleCalls)
    (lastRecord (firstRecord samplePlan) s.history).state = .runtimeReady ∧
    samplePlan.sourceExportHeaderDigest = sampleBinding.exportHeaderDigest := by
  have hcalls : ((HandoffSystem.start (rowOf (firstRecord samplePlan))).run residue
      (eventsOf sampleCalls)).history.map Transition.call = sampleCalls := by decide +kernel
  have hcomputed : ∀ c ∈ ((HandoffSystem.start (rowOf (firstRecord samplePlan))).run residue
      (eventsOf sampleCalls)).history, Computed residue samplePlan sampleExport c.call := by
    intro c hc
    have hcall := List.mem_map_of_mem (f := Transition.call) hc
    rw [hcalls] at hcall
    simp only [sampleCalls, callsOf, List.mem_cons, List.not_mem_nil, or_false] at hcall
    rcases hcall with hcall | hcall | hcall | hcall | hcall <;> rw [hcall]
    · refine ⟨Empty, Empty, fun row => .ok (some ⟨row.space, row.key, row.value⟩), residueRoot,
        sampleRows, ?_⟩
      decide +kernel
    all_goals trivial
  have hstate : (lastRecord (firstRecord samplePlan) ((HandoffSystem.start (rowOf (firstRecord
      samplePlan))).run residue (eventsOf sampleCalls)).history).state = .runtimeReady := by
        decide +kernel
  obtain ⟨⟨-, -, -, -, hheader⟩, -⟩ :=
    ready_record_names_its_source newVerifiedSource_sample initializeHandoff_sample hcomputed hstate
  exact ⟨hstate, hheader⟩

/-- A plan for another chain than that of the export. -/
def foreignPlan : MigrationPlan := planFor (.ofByte 9)

/-- A handoff gets ready under a plan for another chain and with a projection of another export. -/
theorem foreign_plan_gets_ready :
    verifyExport residue acceptAll sampleHeader sampleRows = .ok sampleExport ∧
    MigrationHandoffRecord.newVerifiedSource residue foreignPlan
      (.fromVerifiedExport residue sampleExport) (contextAt 9 (.ofByte 3)) 1 =
        .ok (firstRecord foreignPlan) ∧
    initializeHandoff residue (firstRecord foreignPlan) = .ok (rowOf (firstRecord foreignPlan)) ∧
    let projection := projectionFrom foreignPlan (.ofByte 71) (.ofByte 72)
    let s := (HandoffSystem.start (rowOf (firstRecord foreignPlan))).run residue
      (eventsOf (callsOf foreignPlan projection))
    let record := lastRecord (firstRecord foreignPlan) s.history
    record.state = .runtimeReady ∧ foreignPlan.sourceChainId ≠ sampleBinding.sourceChainId ∧
    record.projectionDigest = projection.canonicalDigest residue ∧
    projection.sourceExportRoot ≠ sampleBinding.exportRoot ∧
    projection.sourceOrderedRowsDigest ≠ sampleBinding.orderedRowsDigest := by
  decide +kernel

end Trillionnium.StateImport
