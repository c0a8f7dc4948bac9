import OfficeConnect.Core.Base

/-!
# The claim status vocabulary

A claim is a reimbursement or a liquidation.  Its status is the code of its workflow state, and each
kind has its own set of codes, with the copy its holder is shown.
-/

namespace OfficeConnect.Reimbursement

inductive Kind where
  | reimbursement | liquidation
deriving DecidableEq, Repr

/-- The state codes of both chains; the first four are shared. -/
inductive Status where
  | draft | returned | handedToFms | cancelled
  | divisionApproval | adminReview | fmsReturned | paidClosed
  | certifyB | certifyC | settled
deriving DecidableEq, Repr

def Status.text : Status → String
  | draft => "draft"
  | returned => "returned"
  | handedToFms => "handed_to_fms"
  | cancelled => "cancelled"
  | divisionApproval => "division_approval"
  | adminReview => "admin_review"
  | fmsReturned => "fms_returned"
  | paidClosed => "paid_closed"
  | certifyB => "certify_b"
  | certifyC => "certify_c"
  | settled => "settled"

instance : ToString Status := ⟨Status.text⟩

def Kind.text : Kind → String
  | reimbursement => "reimbursement"
  | liquidation => "liquidation"

instance : ToString Kind := ⟨Kind.text⟩

structure Vocabulary where
  allStates : List Status
  terminal : List Status
  claimant : List Status
  external : List Status
  labels : List (Status × String)
  nextAction : List (Status × String)

namespace Vocabulary

def label? (v : Vocabulary) (s : Status) : Option String := v.labels.lookup s

/-- `labels.get(status, status)`. -/
def label (v : Vocabulary) (s : Status) : String := (v.label? s).getD (toString s)

def nextAction? (v : Vocabulary) (s : Status) : Option String := v.nextAction.lookup s

end Vocabulary

open Status

def reimbursementVocabulary : Vocabulary where
  allStates := [draft, divisionApproval, adminReview, handedToFms, fmsReturned, returned,
    paidClosed, cancelled]
  terminal := [paidClosed, cancelled]
  claimant := [draft, returned]
  external := [handedToFms]
  labels := [
    (draft, "Draft"),
    (divisionApproval, "For Approval"),
    (adminReview, "Admin Review"),
    (handedToFms, "Handed to FMS"),
    (fmsReturned, "FMS Returned"),
    (returned, "Returned"),
    (paidClosed, "Paid / Closed"),
    (cancelled, "Cancelled/Void")]
  nextAction := [
    (draft, "Complete your packet"),
    (divisionApproval, "Approve or return"),
    (adminReview, "Final check & print packet"),
    (handedToFms, "Waiting on FMS — update status"),
    (fmsReturned, "Relay FMS comments"),
    (returned, "Fix and resubmit")]

def liquidationVocabulary : Vocabulary where
  allStates := [draft, certifyB, certifyC, handedToFms, returned, settled, cancelled]
  terminal := [settled, cancelled]
  claimant := [draft, returned]
  external := [handedToFms]
  labels := [
    (draft, "Draft"),
    (certifyB, "For Certification B"),
    (certifyC, "For Certification C"),
    (handedToFms, "Handed to FMS"),
    (returned, "Returned"),
    (settled, "Settled"),
    (cancelled, "Cancelled/Void")]
  nextAction := [
    (draft, "Complete your liquidation"),
    (certifyB, "Certify or return"),
    (certifyC, "Record the Accounting certification"),
    (handedToFms, "Waiting on FMS — update status"),
    (returned, "Fix and resubmit")]

def vocabulary : Kind → Vocabulary
  | .reimbursement => reimbursementVocabulary
  | .liquidation => liquidationVocabulary

end OfficeConnect.Reimbursement
