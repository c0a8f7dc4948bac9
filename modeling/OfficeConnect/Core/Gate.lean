import OfficeConnect.Core.Engine
import OfficeConnect.Core.Totality
import Mathlib.Data.List.ReduceOption

/-!
# The completeness gate

A packet is complete exactly when every required row that a human must supply holds something.  The
checks have no part in it: with any others the gate and every action are the same, as long as
evaluation returns.
-/

namespace OfficeConnect.Checklist

open Lib

variable {str : Json → String} {lower : String → String}

section

variable {existing : List ItemState} {facts : Facts} {row : CatalogSpec}

/-! ## One row -/

/-- A rule evaluates to required. -/
def CatalogSpec.Required (facts : Facts) (row : CatalogSpec) : Prop :=
  ∃ o, evaluateRequiredRule row.requiredRule facts = .ok o ∧ o.required = true

/-- The row's item has usable evidence, a waiver or a generated document. -/
def CatalogSpec.Supplied (existing : List ItemState) (row : CatalogSpec) : Prop :=
  ∃ s, itemOf existing row.catalogId = some s ∧
    (0 < s.evidenceCount.1 ∨ s.waived = true ∨ s.generated = true)

/-- Evaluation can take the row: its rule, and its checks where the rule leads to a plan. -/
def CatalogSpec.Calm (facts : Facts) (state : Option ItemState) (row : CatalogSpec) : Prop :=
  (∀ c ∈ comparisonsAt (maxRuleDepth + 1) row.requiredRule, c.Calm facts) ∧
    ∀ o, evaluateRequiredRule row.requiredRule facts = .ok o → skipped o state = false →
      ∀ p ∈ runnable row.autoChecks, p.1.Calm p.2 (itemFacts facts state)

theorem planItem_eq_ok {state : Option ItemState} {o : Option ItemPlan} :
    planItem str lower facts state row = .ok o ↔ ∃ outcome,
      evaluateRequiredRule row.requiredRule facts = .ok outcome ∧
        if skipped outcome state then o = none
        else ∃ checks, runAutoChecks str lower row.autoChecks (itemFacts facts state) = .ok checks ∧
          o = some (planOf row state outcome checks) := by
  unfold planItem
  simp only [bind_eq_ok]
  refine exists_congr fun outcome => and_congr_right fun _ => ?_
  split_ifs
  · rw [pure_eq_ok]
    exact eq_comm
  · simp only [bind_eq_ok, pure_eq_ok, eq_comm (b := o)]

theorem returns_planItem (str : Json → String) (lower : String → String)
    {state : Option ItemState} :
    Returns (planItem str lower facts state row) ↔ row.Calm facts state := by
  unfold CatalogSpec.Calm
  rw [← returns_evaluateAt]
  simp only [← returns_runAutoChecks str lower]
  constructor
  · rintro ⟨o, h⟩
    obtain ⟨outcome, houtcome, hrest⟩ := planItem_eq_ok.1 h
    refine ⟨⟨outcome, houtcome⟩, fun outcome' houtcome' hskipped => ?_⟩
    obtain rfl : outcome = outcome' := Except.ok.inj (houtcome.symm.trans houtcome')
    rw [hskipped, if_neg (by decide)] at hrest
    obtain ⟨checks, hchecks, -⟩ := hrest
    exact ⟨checks, hchecks⟩
  · rintro ⟨⟨outcome, houtcome⟩, hchecks⟩
    cases hskipped : skipped outcome state with
    | true => exact ⟨none, planItem_eq_ok.2 ⟨outcome, houtcome, by rw [if_pos hskipped]⟩⟩
    | false =>
        obtain ⟨checks, hchecks⟩ := hchecks outcome houtcome hskipped
        refine ⟨some (planOf row state outcome checks), planItem_eq_ok.2 ⟨outcome, houtcome, ?_⟩⟩
        rw [hskipped, if_neg (by decide)]
        exact ⟨checks, hchecks, rfl⟩

/-- An unreadable rule requires nothing. -/
theorem readable_of_required {rule : Json} {o : RuleOutcome}
    (h : evaluateRequiredRule rule facts = .ok o) (hreq : o.required = true) :
    o.unparseable = false := by
  rw [← Bool.not_eq_true]
  intro hunread
  rw [required_of_unparseable h hunread] at hreq
  cases hreq

/-- A required row is always planned. -/
theorem not_skipped_of_required {o : RuleOutcome} {state : Option ItemState}
    (hreq : o.required = true) (hread : o.unparseable = false) : skipped o state = false := by
  simp [skipped, hreq, hread]

theorem missing_iff {state : Option ItemState} {checks : List CheckResult}
    (hevidence : row.evidence ∈ blockingEvidence) :
    (derive row state checks).1 = .missing ↔
      ¬ ∃ s, state = some s ∧ (0 < s.evidenceCount.1 ∨ s.waived = true ∨ s.generated = true) := by
  have hdata : row.evidence ≠ "data_only" := by
    rintro h
    rw [h] at hevidence
    exact absurd hevidence (by decide)
  unfold derive
  dsimp only
  rw [if_neg hdata]
  cases state with
  | none => simp
  | some s =>
      simp only [Option.any_some, Option.some_inj, exists_eq_left', decide_eq_true_eq]
      split_ifs with hwaived hgenerated hcount
      · simp [hwaived]
      · simp [hgenerated]
      · simp [hcount]
      · simp [hwaived, hgenerated, hcount]

end

/-! ## The plan -/

section

variable {catalog : List CatalogSpec} {existing : List ItemState} {facts : Facts}
  {plan : List ItemPlan}

theorem returns_planChecklist (str : Json → String) (lower : String → String) : Returns (planChecklist str lower catalog existing facts) ↔
    ∀ row ∈ catalog, row.Calm facts (itemOf existing row.catalogId) := by
  unfold planChecklist
  rw [returns_bind_iff (p := True) fun plans => by simp, and_true, returns_mapM]
  simp only [returns_planItem, List.mem_insertionSort]

theorem planChecklist_eq_ok : planChecklist str lower catalog existing facts = .ok plan ↔
    ∃ plans, List.Forall₂
      (fun row o => planItem str lower facts (itemOf existing row.catalogId) row = .ok o)
      (catalog.insertionSort CatalogSpec.le) plans ∧ plan = plans.reduceOption := by
  unfold planChecklist
  simp only [bind_eq_ok, pure_eq_ok, mapM_eq_ok, eq_comm (b := plan)]

theorem mem_plan (h : planChecklist str lower catalog existing facts = .ok plan) {p : ItemPlan} :
    p ∈ plan ↔ ∃ row ∈ catalog,
      planItem str lower facts (itemOf existing row.catalogId) row = .ok (some p) := by
  obtain ⟨plans, hplans, rfl⟩ := planChecklist_eq_ok.1 h
  rw [List.reduceOption_mem_iff, mem_of_forall₂ hplans]
  simp only [List.mem_insertionSort]

theorem complete_iff : (packetStatus plan).complete ↔ ∀ p ∈ plan, p.required = true →
    p.catalog.evidence ∈ blockingEvidence → p.evidenceState ≠ .missing := by
  simp only [PacketStatus.complete, packetStatus, List.map_eq_nil_iff, List.filter_eq_nil_iff,
    List.mem_filter, decide_eq_true_eq]
  exact ⟨fun h p hp hreq hevidence => h p ⟨hp, hreq, hevidence⟩, fun h p hp => h p hp.1 hp.2.1 hp.2.2⟩

/-- What the plan says of the packet. -/
structure Gated (catalog : List CatalogSpec) (existing : List ItemState) (facts : Facts)
    (plan : List ItemPlan) : Prop where
  complete : (packetStatus plan).complete ↔ ∀ row ∈ catalog, row.Required facts →
    row.evidence ∈ blockingEvidence → row.Supplied existing
  total : (packetStatus plan).requiredDone + (packetStatus plan).blocking.length =
    (packetStatus plan).requiredTotal
  kept : ∀ p ∈ plan, p.action = .makeDormant → ∃ s, itemOf existing p.catalog.catalogId = some s ∧
    p.itemId = some s.itemId ∧ s.holdsSomething = false

theorem eq_of_makeDormant {applies : Bool} {state : Option ItemState}
    (h : planAction applies state = .makeDormant) :
    ∃ s, state = some s ∧ s.holdsSomething = false := by
  cases state with
  | none => cases h
  | some s =>
      refine ⟨s, rfl, ?_⟩
      unfold planAction at h
      dsimp only at h
      split_ifs at h with hrestore happlies hholds
      exact Bool.eq_false_iff.2 hholds

theorem gated_of_plan (h : planChecklist str lower catalog existing facts = .ok plan) :
    Gated catalog existing facts plan := by
  have hcalm := (returns_planChecklist _ _).1 ⟨plan, h⟩
  refine ⟨?_, by simp [packetStatus], ?_⟩
  · rw [complete_iff]
    constructor
    · rintro hplan row hrow ⟨o, ho, hreq⟩ hevidence
      obtain ⟨p?, hp⟩ := (returns_planItem str lower).2 (hcalm row hrow)
      obtain ⟨o', ho', hrest⟩ := planItem_eq_ok.1 hp
      obtain rfl : o = o' := Except.ok.inj (ho.symm.trans ho')
      rw [if_neg (by simp [not_skipped_of_required hreq (readable_of_required ho hreq)])] at hrest
      obtain ⟨checks, -, rfl⟩ := hrest
      have hmissing := hplan _ ((mem_plan h).2 ⟨row, hrow, hp⟩) hreq hevidence
      exact not_not.1 fun hnot => hmissing ((missing_iff hevidence).2 hnot)
    · intro hsupplied p hp hreq hevidence hmissing
      obtain ⟨row, hrow, hitem⟩ := (mem_plan h).1 hp
      obtain ⟨o, ho, hrest⟩ := planItem_eq_ok.1 hitem
      split_ifs at hrest
      obtain ⟨checks, -, hpo⟩ := hrest
      cases hpo
      exact (missing_iff hevidence).1 hmissing (hsupplied row hrow ⟨o, ho, hreq⟩ hevidence)
  · intro p hp haction
    obtain ⟨row, -, hitem⟩ := (mem_plan h).1 hp
    obtain ⟨o, -, hrest⟩ := planItem_eq_ok.1 hitem
    split_ifs at hrest
    obtain ⟨checks, -, hpo⟩ := hrest
    cases hpo
    obtain ⟨s, hs, hholds⟩ := eq_of_makeDormant haction
    exact ⟨s, hs, by simp [planOf, hs], hholds⟩

end

/-! ## Other checks -/

/-- The row with other checks. -/
def CatalogSpec.withChecks (checks : CatalogSpec → Json) (row : CatalogSpec) : CatalogSpec :=
  { row with autoChecks := checks row }

/-- What the gate and the action need of a plan. -/
structure Face where
  item : BlockingItem
  action : PlanAction
  required : Bool
  evidenceState : EvidenceState

def ItemPlan.face (p : ItemPlan) : Face :=
  { item := p.blockingItem, action := p.action, required := p.required
    evidenceState := p.evidenceState }

/-- The gate and the actions are those of the other plan. -/
structure SameGate (plan plan' : List ItemPlan) : Prop where
  complete : (packetStatus plan).complete ↔ (packetStatus plan').complete
  blocking : (packetStatus plan).blocking = (packetStatus plan').blocking
  total : (packetStatus plan).requiredTotal = (packetStatus plan').requiredTotal
  done : (packetStatus plan).requiredDone = (packetStatus plan').requiredDone
  actions : plan.map (fun p => (p.catalog.catalogId, p.action)) =
    plan'.map fun p => (p.catalog.catalogId, p.action)

theorem derive_fst {row row' : CatalogSpec} {state : Option ItemState} {checks checks' : List CheckResult}
    (h : row.evidence = row'.evidence) : (derive row state checks).1 = (derive row' state checks').1 := by
  unfold derive
  rw [h]
  dsimp only
  split_ifs <;> rfl

section

variable {existing : List ItemState} {facts : Facts} {checks : CatalogSpec → Json}

theorem planItem_face {row : CatalogSpec} {state : Option ItemState} {o o' : Option ItemPlan}
    (h : planItem str lower facts state row = .ok o)
    (h' : planItem str lower facts state (row.withChecks checks) = .ok o') :
    o.map ItemPlan.face = o'.map ItemPlan.face := by
  obtain ⟨outcome, houtcome, hrest⟩ := planItem_eq_ok.1 h
  obtain ⟨outcome', houtcome', hrest'⟩ := planItem_eq_ok.1 h'
  obtain rfl : outcome = outcome' := Except.ok.inj (houtcome.symm.trans houtcome')
  by_cases hskipped : skipped outcome state = true
  · rw [if_pos hskipped] at hrest hrest'
    rw [hrest, hrest']
  · rw [if_neg hskipped] at hrest hrest'
    obtain ⟨results, -, rfl⟩ := hrest
    obtain ⟨results', -, rfl⟩ := hrest'
    simp only [Option.map_some, ItemPlan.face, planOf]
    have hderive : (derive row state results).1 = (derive (row.withChecks checks) state results').1 :=
      derive_fst rfl
    rw [hderive]
    rfl

theorem sameGate_of_face {plan plan' : List ItemPlan}
    (h : plan.map ItemPlan.face = plan'.map ItemPlan.face) : SameGate plan plan' := by
  have hblocking : ∀ plan : List ItemPlan, (packetStatus plan).blocking =
      ((plan.map ItemPlan.face).filter fun f => f.evidenceState = .missing ∧
        f.required ∧ f.item.evidence ∈ blockingEvidence).map (·.item) := by
    intro plan
    simp only [packetStatus, List.filter_map, List.map_map, List.filter_filter, ← Bool.decide_and]
    rfl
  have htotal : ∀ plan : List ItemPlan, (packetStatus plan).requiredTotal =
      ((plan.map ItemPlan.face).filter fun f =>
        f.required ∧ f.item.evidence ∈ blockingEvidence).length := by
    intro plan
    simp only [packetStatus, List.filter_map, List.length_map]
    rfl
  have hblocked : (packetStatus plan).blocking = (packetStatus plan').blocking := by
    rw [hblocking, hblocking, h]
  have hcounted : (packetStatus plan).requiredTotal = (packetStatus plan').requiredTotal := by
    rw [htotal, htotal, h]
  refine ⟨by rw [PacketStatus.complete, PacketStatus.complete, hblocked], hblocked, hcounted, ?_, ?_⟩
  · have hdone : ∀ plan : List ItemPlan, (packetStatus plan).requiredDone =
        (packetStatus plan).requiredTotal - (packetStatus plan).blocking.length := fun _ => rfl
    rw [hdone, hdone, hcounted, hblocked]
  · have hactions := congrArg (List.map fun f : Face => (f.item.catalogId, f.action)) h
    rwa [List.map_map, List.map_map] at hactions

theorem faces_eq {rows : List CatalogSpec} {plans plans' : List (Option ItemPlan)}
    (h : List.Forall₂
      (fun row o => planItem str lower facts (itemOf existing row.catalogId) row = .ok o) rows plans)
    (h' : List.Forall₂
      (fun row o => planItem str lower facts (itemOf existing row.catalogId) row = .ok o)
      (rows.map (·.withChecks checks)) plans') :
    plans.map (Option.map ItemPlan.face) = plans'.map (Option.map ItemPlan.face) := by
  induction h generalizing plans' with
  | nil =>
      cases h'
      rfl
  | cons hrow _ ih =>
      cases h' with
      | cons hrow' hrest => rw [List.map_cons, List.map_cons, planItem_face hrow hrow', ih hrest]

theorem sameGate_of_plan {catalog : List CatalogSpec} {plan plan' : List ItemPlan}
    (h : planChecklist str lower catalog existing facts = .ok plan)
    (h' : planChecklist str lower (catalog.map (·.withChecks checks)) existing facts = .ok plan') :
    SameGate plan plan' := by
  obtain ⟨plans, hplans, rfl⟩ := planChecklist_eq_ok.1 h
  obtain ⟨plans', hplans', rfl⟩ := planChecklist_eq_ok.1 h'
  have hsort := List.map_insertionSort (r := CatalogSpec.le) (s := CatalogSpec.le)
    (f := CatalogSpec.withChecks checks) (l := catalog) fun a _ b _ => Iff.rfl
  rw [← hsort] at hplans'
  apply sameGate_of_face
  rw [← List.reduceOption_map, ← List.reduceOption_map, faces_eq hplans hplans']

end

/-! ## The gate -/

/-- The packet is complete exactly when every required row that a human must supply holds something,
the progress line adds up, nothing that holds something is put away, and no other checks change any
of it: all of this when evaluation can take every row with either checks, and only then. -/
theorem planChecklist_gated_iff (str : Json → String) (lower : String → String)
    (catalog : List CatalogSpec) (existing : List ItemState) (facts : Facts)
    (checks : CatalogSpec → Json) :
    (∃ plan plan', planChecklist str lower catalog existing facts = .ok plan ∧
      planChecklist str lower (catalog.map (·.withChecks checks)) existing facts = .ok plan' ∧
      Gated catalog existing facts plan ∧ SameGate plan plan') ↔
    ∀ row ∈ catalog, row.Calm facts (itemOf existing row.catalogId) ∧
      (row.withChecks checks).Calm facts (itemOf existing row.catalogId) := by
  constructor
  · rintro ⟨plan, plan', h, h', -, -⟩ row hrow
    exact ⟨(returns_planChecklist _ _).1 ⟨plan, h⟩ row hrow,
      (returns_planChecklist _ _).1 ⟨plan', h'⟩ _ (List.mem_map_of_mem hrow)⟩
  · intro hcalm
    obtain ⟨plan, h⟩ := (returns_planChecklist str lower).2
      fun row hrow => (hcalm row hrow).1
    obtain ⟨plan', h'⟩ : Returns
        (planChecklist str lower (catalog.map (·.withChecks checks)) existing facts) := by
      rw [returns_planChecklist, List.forall_mem_map]
      exact fun row hrow => (hcalm row hrow).2
    exact ⟨plan, plan', h, h', gated_of_plan h, sameGate_of_plan h h'⟩

def ticket : CatalogSpec :=
  { catalogId := 1, code := "TKT", label := "Ticket", group := "travel", evidence := "upload"
    requiredRule := .obj [("always", .bool true)], autoChecks := .list [] }

/-- A check that raises, whatever the facts: its tolerance is no number. -/
def nanTolerance : Json :=
  .list [.obj [("type", .str "sum_matches"), ("of", .str "legs.fare"),
    ("vs", .str "item.evidence_count"), ("tolerance", .str "NaN")]]

/-- A check that blocks: with it there is no plan. -/
theorem nanTolerance_blocks :
    ¬ ∃ plan plan', planChecklist (fun _ => "") id [ticket] [] [] = .ok plan ∧
      planChecklist (fun _ => "") id ([ticket].map (·.withChecks fun _ => nanTolerance)) [] [] =
        .ok plan' ∧
      Gated [ticket] [] [] plan ∧ SameGate plan plan' := by
  rintro ⟨plan, plan', -, h', -⟩
  have hraised : planChecklist (fun _ => "") id ([ticket].map (·.withChecks fun _ => nanTolerance))
      [] [] = .error .invalidOperation := by rfl
  rw [hraised] at h'
  cases h'

end OfficeConnect.Checklist
