import OfficeConnect.Reimbursement.Status
import OfficeConnect.Workflow.Engine

/-!
# The two chains

The signatory chain of each claim kind is a workflow definition, authored and published once by
`ensure_definitions` on a fresh database: the claim chain first, so the ids of the liquidation
chain go on from it.
-/

namespace OfficeConnect.Reimbursement

open Workflow

def approvePerm : String := "reimb.claim.approve"

def reviewPerm : String := "reimb.claim.review"

def fmsPerm : String := "reimb.claim.fms_update"

def certifyPerm : String := "reimb.liquidation.certify"

/-! ## Authoring -/

/-- A state the claimant or FMS holds, or a terminal. -/
def rest (id : ℕ) (code : Status) (kind : StateKind := .normal) : State Status :=
  { id, code, kind }

/-- An approval gate with its one signature. -/
def gate (id : ℕ) (code : Status) (perm : String) (enforceSegregation : Bool := false) :
    State Status :=
  { id, code, isApprovalGate := true, requiredPermission := some perm, enforceSegregation }

def claimDraft : Version Status where
  id := 1
  definitionId := 1
  states := [
    rest 1 .draft .initial,
    gate 2 .divisionApproval approvePerm true,
    gate 3 .adminReview reviewPerm true,
    gate 4 .handedToFms fmsPerm,
    gate 5 .fmsReturned reviewPerm,
    rest 6 .returned,
    rest 7 .paidClosed .terminal,
    rest 8 .cancelled .terminal]
  transitions := [
    { id := 1, fromStateId := 1, toStateId := 2, action := .submit
      requiredPermission := some reviewPerm },
    { id := 2, fromStateId := 1, toStateId := 8, action := .cancel
      requiresComment := true, requiredPermission := some reviewPerm },
    { id := 3, fromStateId := 2, toStateId := 3, action := .approve },
    { id := 4, fromStateId := 2, toStateId := 6, action := .return, requiresComment := true },
    { id := 5, fromStateId := 3, toStateId := 4, action := .approve },
    { id := 6, fromStateId := 3, toStateId := 6, action := .return, requiresComment := true },
    { id := 7, fromStateId := 4, toStateId := 7, action := .approve },
    { id := 8, fromStateId := 4, toStateId := 5, action := .return, requiresComment := true },
    { id := 9, fromStateId := 5, toStateId := 6, action := .return, requiresComment := true },
    { id := 10, fromStateId := 6, toStateId := 2, action := .resubmit
      requiredPermission := some reviewPerm },
    { id := 11, fromStateId := 6, toStateId := 8, action := .cancel
      requiresComment := true, requiredPermission := some reviewPerm }]

/-- Certification A is the submission itself, and there is no `fms_returned`. -/
def liquidationDraft : Version Status where
  id := 2
  definitionId := 2
  states := [
    rest 9 .draft .initial,
    gate 10 .certifyB certifyPerm true,
    gate 11 .certifyC reviewPerm true,
    gate 12 .handedToFms fmsPerm,
    rest 13 .returned,
    rest 14 .settled .terminal,
    rest 15 .cancelled .terminal]
  transitions := [
    { id := 12, fromStateId := 9, toStateId := 10, action := .submit
      requiredPermission := some reviewPerm },
    { id := 13, fromStateId := 9, toStateId := 15, action := .cancel
      requiresComment := true, requiredPermission := some reviewPerm },
    { id := 14, fromStateId := 10, toStateId := 11, action := .approve },
    { id := 15, fromStateId := 10, toStateId := 13, action := .return, requiresComment := true },
    { id := 16, fromStateId := 11, toStateId := 12, action := .approve, requiresComment := true },
    { id := 17, fromStateId := 11, toStateId := 13, action := .return, requiresComment := true },
    { id := 18, fromStateId := 12, toStateId := 14, action := .approve },
    { id := 19, fromStateId := 12, toStateId := 13, action := .return, requiresComment := true },
    { id := 20, fromStateId := 13, toStateId := 10, action := .resubmit
      requiredPermission := some reviewPerm },
    { id := 21, fromStateId := 13, toStateId := 15, action := .cancel
      requiresComment := true, requiredPermission := some reviewPerm }]

/-! ## Publication -/

def claimChain : Published Status :=
  claimDraft.publish rfl (by decide +kernel) (by decide) (by decide)

def liquidationChain : Published Status :=
  liquidationDraft.publish rfl (by decide +kernel) (by decide) (by decide)

/-- The published version the claim's kind runs on. -/
def chain : Kind → Published Status
  | .reimbursement => claimChain
  | .liquidation => liquidationChain

def definitionCode : Kind → String
  | .reimbursement => "reimbursement.claim"
  | .liquidation => "reimbursement.liquidation"

/-- A version by its id. -/
def version? (id : ℕ) : Option (Published Status) :=
  if id = claimChain.id then some claimChain
  else if id = liquidationChain.id then some liquidationChain
  else none

/-- A state by its id, in the one table both chains share. -/
def state? (id : ℕ) : Option (State Status) :=
  (claimChain.states ++ liquidationChain.states).find? (·.id = id)

/-- Every state of a chain is in its kind's vocabulary and every code of the vocabulary is a
state. -/
theorem chain_codes (kind : Kind) :
    (chain kind).states.map (·.code) = (vocabulary kind).allStates := by
  cases kind <;> decide

theorem version?_chain (kind : Kind) : version? (chain kind).id = some (chain kind) := by
  cases kind
  · rfl
  · rfl

/-- The shared table agrees with the chain a state belongs to. -/
theorem state?_chain (kind : Kind) {id : ℕ} {s : State Status}
    (h : (chain kind).state? id = some s) : state? id = some s := by
  have hmem : s ∈ (chain kind).states := List.mem_of_find?_eq_some h
  obtain rfl : s.id = id := Version.state?_id h
  have hall : ∀ k, ∀ s ∈ (chain k).states, state? s.id = some s := by
    intro k
    cases k <;> decide
  exact hall kind s hmem

end OfficeConnect.Reimbursement
