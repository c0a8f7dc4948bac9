import Mathlib.Data.List.Sort
import OfficeConnect.Core.Base

/-!
# Workflow definitions

A workflow is data: a version of a definition is a list of states and a list of transitions,
authored freely as a draft, then validated and frozen by `publishVersion`.  The type `κ` of state
codes belongs to the module that authors the definition.
-/

namespace OfficeConnect.Workflow

open Lib

/-! ## The native enums -/

inductive StateKind where
  | initial | normal | terminal
deriving DecidableEq, Repr

inductive Action where
  | submit | approve | return | reject | cancel | escalate | resubmit
deriving DecidableEq, Repr

inductive StepStatus where
  | pending | active | done | returned | skipped
deriving DecidableEq, Repr

inductive JoinType where
  | all | any | quorum
deriving DecidableEq, Repr

inductive EventType where
  | started | transition | escalation | reminder | note
deriving DecidableEq, Repr

def Action.text : Action → String
  | submit => "submit"
  | approve => "approve"
  | .return => "return"
  | reject => "reject"
  | cancel => "cancel"
  | escalate => "escalate"
  | resubmit => "resubmit"

instance : ToString Action := ⟨Action.text⟩

/-! ## Errors -/

def instanceNotFound : Raised :=
  .api 404 "workflow_instance_not_found" "Workflow instance not found."

def definitionNotPublished (code : String) : Raised :=
  .api 409 "workflow_definition_not_published" s!"No published version of workflow '{code}'."

def moduleDisabled : Raised :=
  .api 409 "workflow_module_disabled" "This workflow is disabled; no new items can be started."

def staleVersion : Raised :=
  .api 409 "stale_workflow_version" "This item changed since you loaded it — reload and try again."

def stateConflict : Raised :=
  .api 409 "workflow_state_conflict" "This item already moved on — someone acted first."

def alreadyActed : Raised :=
  .api 409 "workflow_step_already_acted" "You have already acted on this step."

def notAuthorized : Raised :=
  .api 403 "workflow_not_authorized" "You may not take this action."

def transitionNotAllowed (action : Action) : Raised :=
  .api 422 "workflow_transition_not_allowed" s!"'{action}' is not allowed from the current state."

def commentRequired : Raised :=
  .api 422 "workflow_comment_required" "A reason is required for this action."

def invalidDefinition (message : String) : Raised :=
  .api 400 "workflow_invalid_definition" message

def alreadyPublished : Raised :=
  .api 409 "workflow_version_published" "A published version cannot be edited."

/-! ## States, transitions, versions -/

/-- A node of the graph.  An approval gate also carries the template of the steps it spawns. -/
structure State (κ : Type) where
  id : ℕ
  code : κ
  kind : StateKind := .normal
  isApprovalGate : Bool := false
  requiredPermission : Option String := none
  joinType : JoinType := .all
  stepCount : ℤ := 1
  quorumCount : Option ℤ := none
  slaHours : Option ℤ := none
  enforceSegregation : Bool := false
  requiresComment : Bool := false
deriving DecidableEq, Repr

/-- A legal move, guarded by an amount band. -/
structure Transition where
  id : ℕ
  fromStateId : ℕ
  toStateId : ℕ
  action : Action
  sortOrder : ℤ := 0
  requiredPermission : Option String := none
  minAmount : Option ℤ := none
  maxAmount : Option ℤ := none
  requiresComment : Bool := false
deriving DecidableEq, Repr

structure Version (κ : Type) where
  id : ℕ
  definitionId : ℕ
  versionNo : ℕ := 1
  isPublished : Bool := false
  states : List (State κ) := []
  transitions : List Transition := []
deriving DecidableEq, Repr

variable {κ : Type}

namespace Version

def state? (v : Version κ) (id : ℕ) : Option (State κ) := v.states.find? (·.id = id)

theorem state?_id {v : Version κ} {id : ℕ} {s : State κ} (h : v.state? id = some s) :
    s.id = id := by simpa using List.find?_some h

def addState (v : Version κ) (s : State κ) : Except Raised (Version κ) := do
  refuse v.isPublished alreadyPublished
  return { v with states := v.states ++ [s] }

def addTransition (v : Version κ) (t : Transition) : Except Raised (Version κ) := do
  refuse v.isPublished alreadyPublished
  return { v with transitions := v.transitions ++ [t] }

end Version

/-- `ORDER BY sort_order, id`. -/
def Transition.le (a b : Transition) : Prop :=
  a.sortOrder < b.sortOrder ∨ a.sortOrder = b.sortOrder ∧ a.id ≤ b.id

instance : DecidableRel Transition.le := fun a b =>
  inferInstanceAs (Decidable (a.sortOrder < b.sortOrder ∨ a.sortOrder = b.sortOrder ∧ a.id ≤ b.id))

instance : Std.Total Transition.le where
  total a b := by unfold Transition.le; omega

instance : IsTrans Transition Transition.le where
  trans a b c := by unfold Transition.le; omega

/-- The amount falls in the transition's band; a bound without an amount fails. -/
def amountGuardPasses (t : Transition) (amount : Option ℤ) : Bool :=
  (match t.minAmount with
    | none => true
    | some lo => match amount with
      | none => false
      | some a => lo ≤ a) &&
  (match t.maxAmount with
    | none => true
    | some hi => match amount with
      | none => false
      | some a => a ≤ hi)

/-! ## Publication -/

/-- The targets of the transitions out of a state, in the order they were authored. -/
def outgoing (transitions : List Transition) (id : ℕ) : List ℕ :=
  (transitions.filter (·.fromStateId = id)).map (·.toStateId)

/-- The worklist loop: pop a node, skip it if seen, else push its successors.  The head of the list
is the top of the stack. -/
def explore (out : ℕ → List ℕ) : ℕ → List ℕ → List ℕ → List ℕ
  | 0, seen, _ => seen
  | _ + 1, seen, [] => seen
  | fuel + 1, seen, node :: frontier =>
      if node ∈ seen then explore out fuel seen frontier
      else explore out fuel (node :: seen) ((out node).reverse ++ frontier)

/-- The states reached from `start`.  Each transition is pushed at most once, which bounds the
number of rounds. -/
def reached (transitions : List Transition) (start : ℕ) : List ℕ :=
  explore (outgoing transitions) (transitions.length + 1) [] [start]

def soleInitial (states : List (State κ)) : Except Raised (State κ) :=
  match states.filter (·.kind = .initial) with
  | [initial] => .ok initial
  | initials => .error (invalidDefinition
      s!"Exactly one initial state required (found {initials.length}).")

def validateGraph [ToString κ] (states : List (State κ)) (transitions : List Transition) :
    Except Raised Unit := do
  refuse (states = []) (invalidDefinition "A version needs at least one state.")
  let ids := states.map (·.id)
  let initial ← soleInitial states
  refuse (¬ ∃ s ∈ states, s.kind = .terminal)
    (invalidDefinition "At least one terminal state required.")
  refuse (∃ t ∈ transitions, t.fromStateId ∉ ids ∨ t.toStateId ∉ ids)
    (invalidDefinition "A transition references a state outside this version.")
  absent (states.find? fun s => s.kind ≠ .terminal ∧ outgoing transitions s.id = [])
    fun s => invalidDefinition s!"Non-terminal state '{s.code}' has no outgoing transition."
  let seen := reached transitions initial.id
  let unreachable := states.filter (·.id ∉ seen)
  let codes := ", ".intercalate ((unreachable.map fun s => toString s.code).insertionSort (· ≤ ·))
  refuse (unreachable ≠ []) (invalidDefinition s!"Unreachable states: {codes}.")

/-- Validate and freeze a draft; an already published version is returned as it is. -/
def publishVersion [ToString κ] (v : Version κ) : Except Raised (Version κ) :=
  if v.isPublished then .ok v
  else do
    validateGraph v.states v.transitions
    return { v with isPublished := true }

/-- A version `publishVersion` has accepted.  State ids are primary keys and codes are unique
within a version. -/
structure Published (κ : Type) [ToString κ] extends Version κ where
  accepted : ∃ draft : Version κ, draft.isPublished = false ∧
    publishVersion draft = .ok toVersion
  idsNodup : (states.map (·.id)).Nodup
  codesNodup : (states.map (·.code)).Nodup

variable [ToString κ]

theorem publishVersion_eq_ok {draft v : Version κ} (hd : draft.isPublished = false)
    (h : publishVersion draft = .ok v) :
    validateGraph draft.states draft.transitions = .ok () ∧ v = { draft with isPublished := true } := by
  simp only [publishVersion, hd, Bool.false_eq_true, if_false, bind_eq_ok, pure_eq_ok] at h
  obtain ⟨_, hvalid, rfl⟩ := h
  exact ⟨hvalid, rfl⟩

theorem validateGraph_endpoints {states : List (State κ)} {transitions : List Transition}
    (h : validateGraph states transitions = .ok ()) {t : Transition} (ht : t ∈ transitions) :
    t.fromStateId ∈ states.map (·.id) ∧ t.toStateId ∈ states.map (·.id) := by
  simp only [validateGraph, bind_eq_ok, refuse_eq_ok] at h
  obtain ⟨-, -, -, -, -, -, -, hends, -⟩ := h
  by_contra hout
  exact hends ⟨t, ht, not_and_or.1 hout⟩

/-- The frozen form of a draft that passes the validation. -/
def Version.publish (draft : Version κ) (hdraft : draft.isPublished = false)
    (hvalid : validateGraph draft.states draft.transitions = .ok ())
    (hids : (draft.states.map (·.id)).Nodup) (hcodes : (draft.states.map (·.code)).Nodup) :
    Published κ where
  toVersion := { draft with isPublished := true }
  accepted := ⟨draft, hdraft, by simp [publishVersion, hdraft, hvalid, pure, Except.pure]⟩
  idsNodup := hids
  codesNodup := hcodes

namespace Published

variable (v : Published κ)

theorem valid : validateGraph v.states v.transitions = .ok () := by
  obtain ⟨draft, hd, h⟩ := v.accepted
  obtain ⟨hv, heq⟩ := publishVersion_eq_ok hd h
  rw [heq]
  exact hv

/-- Every transition of a published version leads to a state of it. -/
theorem target_exists {t : Transition} (ht : t ∈ v.transitions) :
    ∃ s, v.state? t.toStateId = some s := by
  obtain ⟨-, hto⟩ := validateGraph_endpoints v.valid ht
  obtain ⟨s, hs, hid⟩ := List.mem_map.1 hto
  refine Option.isSome_iff_exists.1 (List.find?_isSome.2 ⟨s, hs, ?_⟩)
  simp [hid]

end Published

end OfficeConnect.Workflow
