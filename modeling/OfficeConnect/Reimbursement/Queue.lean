import OfficeConnect.Core.Subtree
import OfficeConnect.Reimbursement.Api

/-!
# The oversight queue

The list of claims an overseer sees, and the question asked of one claim at a time.  The list
resolves the actor's grants once, to the units at and below them; the row walks up from the claim's
unit.  They let the same claims through.
-/

namespace OfficeConnect.Reimbursement.Queue

open Lib Workflow

/-! ## The scope -/

/-- The permissions that make someone an overseer of other people's claims. -/
def oversightPerms : List String := [reviewPerm, fmsPerm, approvePerm]

/-- Whether the actor oversees everything, else the units they oversee. -/
def oversightScope (dir : Directory) (actor : ℕ) : Bool × List ℕ :=
  let granted := oversightPerms.flatMap (dir.scopedOrgUnits actor)
  if granted = [] then (false, [])
  else if none ∈ granted then (true, [])
  else (false, dir.descendantsOrSelf (granted.filterMap id))

/-- An instance at no unit is for a global holder only. -/
def scopeClause (isGlobal : Bool) (unitIds : List ℕ) (inst : Instance) : Prop :=
  isGlobal ∨ ∃ unit ∈ unitIds, inst.orgUnitId = some unit

instance (isGlobal : Bool) (unitIds : List ℕ) (inst : Instance) :
    Decidable (scopeClause isGlobal unitIds inst) :=
  inferInstanceAs (Decidable (_ ∨ ∃ unit ∈ unitIds, inst.orgUnitId = some unit))

/-! ## The query -/

/-- Every kind's terminal states, for a query over both kinds. -/
def allTerminalStates : List Status :=
  reimbursementVocabulary.terminal ++ liquidationVocabulary.terminal

/-- What the caller of the query picks. -/
structure QueueFilter where
  kind : Option Kind := none
  statuses : List Status := []
  claimantId : Option ℕ := none
  includeTerminal : Bool := false

def QueueFilter.admits (q : QueueFilter) (claim : Claim) : Prop :=
  (q.includeTerminal ∨ claim.status ∉ allTerminalStates) ∧
    (∀ kind ∈ q.kind, claim.kind = kind) ∧
    (q.statuses = [] ∨ claim.status ∈ q.statuses) ∧
    ∀ claimantId ∈ q.claimantId, claim.claimantId = claimantId

instance (q : QueueFilter) (claim : Claim) : Decidable (q.admits claim) :=
  inferInstanceAs (Decidable ((_ ∨ _) ∧ (∀ kind ∈ q.kind, claim.kind = kind) ∧ (_ ∨ _) ∧
    ∀ claimantId ∈ q.claimantId, claim.claimantId = claimantId))

/-- The submitted claim joined with its instance. -/
def joined (σ : Store) (claimId : ℕ) : Option (Claim × Instance) := do
  let claim ← σ.claims[claimId]?
  let instanceId ← claim.workflowInstanceId
  let inst ← σ.instances[instanceId]?
  return (claim, inst)

/-- The submitted claims inside a scope. -/
def baseQuery (scope : Bool × List ℕ) (q : QueueFilter) (σ : Store) : List ℕ :=
  (List.range σ.claims.length).filter fun claimId =>
    (joined σ claimId).any fun row => scopeClause scope.1 scope.2 row.2 ∧ q.admits row.1

/-! ## A list and a row let the same claims through -/

variable {σ : Store} {dir : Directory} {actor claimId instanceId unit : ℕ}
  {perm : String} {claim : Claim} {inst : Instance}

/-- A permission covers a unit through a global grant or one above it. -/
theorem authorizeScoped_iff :
    dir.authorizeScoped actor perm (some unit) ↔ none ∈ dir.scopedOrgUnits actor perm ∨
      ∃ root, some root ∈ dir.scopedOrgUnits actor perm ∧
        root ∈ dir.ancestorsOrSelf (some unit) := by
  unfold Directory.authorizeScoped
  by_cases hglobal : none ∈ dir.scopedOrgUnits actor perm
  · simp [hglobal]
  · simp [hglobal, and_comm]

theorem mem_granted {scope : Option ℕ} :
    scope ∈ oversightPerms.flatMap (dir.scopedOrgUnits actor) ↔
      ∃ perm ∈ oversightPerms, scope ∈ dir.scopedOrgUnits actor perm := List.mem_flatMap

theorem scopeClause_oversightScope (h : dir.Keyed) (hplaced : inst.orgUnitId = some unit) :
    scopeClause (oversightScope dir actor).1 (oversightScope dir actor).2 inst ↔
      ∃ perm ∈ oversightPerms, dir.authorizeScoped actor perm (some unit) := by
  simp only [authorizeScoped_iff, scopeClause, hplaced, Option.some.injEq, exists_eq_right']
  unfold oversightScope
  simp only
  split_ifs with hnone hglobal
  · have hempty : ∀ scope, ∀ perm ∈ oversightPerms, scope ∉ dir.scopedOrgUnits actor perm := by
      intro scope perm hperm hscope
      have hmem := mem_granted.2 ⟨perm, hperm, hscope⟩
      rw [hnone] at hmem
      exact List.not_mem_nil hmem
    constructor
    · simp
    · rintro ⟨perm, hperm, hscope | ⟨root, hscope, -⟩⟩
      · exact absurd hscope (hempty _ perm hperm)
      · exact absurd hscope (hempty _ perm hperm)
  · obtain ⟨perm, hperm, hscope⟩ := mem_granted.1 hglobal
    exact iff_of_true (.inl rfl) ⟨perm, hperm, .inl hscope⟩
  · rw [Directory.mem_descendantsOrSelf h]
    constructor
    · rintro (hfalse | ⟨root, hroot, habove⟩)
      · exact hfalse.elim
      · obtain ⟨scope, hscope, rfl⟩ := List.mem_filterMap.1 hroot
        obtain ⟨perm, hperm, hscope⟩ := mem_granted.1 hscope
        exact ⟨perm, hperm, .inr ⟨root, hscope, habove⟩⟩
    · rintro ⟨perm, hperm, hscope | ⟨root, hscope, habove⟩⟩
      · exact absurd (mem_granted.2 ⟨perm, hperm, hscope⟩) hglobal
      · have hroot := mem_granted.2 ⟨perm, hperm, hscope⟩
        exact .inr ⟨root, List.mem_filterMap.2 ⟨_, hroot, rfl⟩, habove⟩

/-- A claim is selected when its row joins and passes the scope and the filter. -/
theorem mem_baseQuery {scope : Bool × List ℕ} {q : QueueFilter}
    (hclaim : σ.claims[claimId]? = some claim) (hlink : claim.workflowInstanceId = some instanceId)
    (hinst : σ.instances[instanceId]? = some inst) :
    claimId ∈ baseQuery scope q σ ↔ scopeClause scope.1 scope.2 inst ∧ q.admits claim := by
  have hjoined : joined σ claimId = some (claim, inst) := by
    simp [joined, hclaim, hlink, hinst]
  have hlt : claimId < σ.claims.length := (List.getElem?_eq_some_iff.1 hclaim).1
  simp [baseQuery, hjoined, hlt]

/-- The list shows a placed claim exactly to those the row lets in, because a unit is below a grant
exactly when the grant is above the unit. -/
theorem list_scope_iff_row_scope (env : Env) (h : env.directory.Keyed) :
    (∀ (σ : Store) (actor claimId instanceId unit : ℕ) (claim : Claim) (inst : Instance),
      σ.claims[claimId]? = some claim → claim.workflowInstanceId = some instanceId →
      σ.instances[instanceId]? = some inst → inst.orgUnitId = some unit →
        (claimId ∈ baseQuery (oversightScope env.directory actor) { includeTerminal := true } σ ↔
          Api.hasScopedGrant env σ claim actor oversightPerms)) ∧
    ∀ (roots : List ℕ) (unit : ℕ), unit ∈ env.directory.descendantsOrSelf roots ↔
      ∃ root ∈ roots, root ∈ env.directory.ancestorsOrSelf (some unit) := by
  refine ⟨?_, fun roots unit => Directory.mem_descendantsOrSelf h⟩
  intro σ actor claimId instanceId unit claim inst hclaim hlink hinst hplaced
  have hadmits : ({ includeTerminal := true } : QueueFilter).admits claim := by
    simp [QueueFilter.admits]
  have hunit : Api.claimOrgUnit env σ claim = some unit := by
    simp [Api.claimOrgUnit, hlink, hinst, hplaced]
  rw [mem_baseQuery hclaim hlink hinst, scopeClause_oversightScope h hplaced]
  simp [hadmits, Api.hasScopedGrant, hunit]

/-- Two units that are each other's parent, and a reviewer at one of them. -/
def ring : Env where
  directory :=
    { orgUnits := [{ id := 1, parentOrgUnitId := some 2 }, { id := 2, parentOrgUnitId := some 1 }]
      grants := [{ userId := 7, permission := reviewPerm, orgUnitId := some 1 }] }

/-- A claim submitted in the other unit. -/
def ringStore : Store where
  claims := [{ kind := .reimbursement, claimantId := 0, workflowInstanceId := some 0 }]
  instances := [{ definitionVersionId := 1, currentStateId := 1, originatorUserId := some 3
                  orgUnitId := some 2, amount := none }]

theorem ring_claim_listed :
    0 ∈ baseQuery (oversightScope ring.directory 7) { includeTerminal := true } ringStore :=
  ((list_scope_iff_row_scope ring (by decide)).1 ringStore 7 0 0 2 _ _ rfl rfl rfl rfl).2
    (by decide +kernel)

end OfficeConnect.Reimbursement.Queue
