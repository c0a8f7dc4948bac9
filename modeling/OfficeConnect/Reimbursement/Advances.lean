import OfficeConnect.Reimbursement.Lifecycle

/-!
# Cash advances and the liquidations filed against them

An advance carries a pinned liquidation deadline, recomputed only when its return date moves.  One
claimant holds one unliquidated advance at a time, and one live liquidation answers an advance.
-/

namespace OfficeConnect.Reimbursement

open Lib

/-! ## Errors -/

def cashAdvanceNotFound : Raised :=
  .api 404 "reimb_cash_advance_not_found" "Cash advance not found."

def cashAdvanceUnliquidated (dvNo : Option String) (deadline : Option Day) : Raised :=
  let which := match dvNo with
    | none | some "" => "an earlier advance"
    | some no => "DV " ++ no
  let due := match deadline with
    | none => ""
    | some d => " (due " ++ isoDate d ++ ")"
  .api 409 "reimb_cash_advance_unliquidated"
    ("This claimant still has an unliquidated cash advance — " ++ which ++ due ++
      ". PD 1445 §89 allows only one at a time: liquidate or settle that one " ++
      "before recording another.")

def cashAdvanceSettled : Raised :=
  .api 409 "reimb_cash_advance_settled"
    ("This cash advance is already settled — settled advances are a closed " ++
      "record and cannot be edited.")

def cashAdvanceAmountInvalid : Raised :=
  .api 422 "reimb_cash_advance_amount_invalid" "A cash advance must be for more than ₱0.00."

def cashAdvanceDatesInvalid : Raised :=
  .api 422 "reimb_cash_advance_dates_invalid"
    ("The return date is before the DV date — a travel advance cannot be " ++
      "liquidated before it was issued. Check the dates.")

def liquidationExists (existing : Option (ℕ × Option String)) : Raised :=
  .api 409 "reimb_liquidation_exists" <|
    match existing with
    | none => "This cash advance already has a liquidation. Reload to open it."
    | some (id, refNo) =>
        let which := match refNo with
          | none | some "" => ""
          | some no => no ++ " "
        s!"This cash advance already has a liquidation ({which}#{id}). " ++
          "Open that one instead of starting another."

def cashAdvanceAlreadySettledForLiquidation : Raised :=
  .api 409 "reimb_cash_advance_settled"
    "This cash advance is already settled — there is nothing left to liquidate."

def notAdvanceHolder : Raised :=
  .api 403 "reimb_not_advance_holder"
    "Only the traveller this cash advance was issued to can liquidate it."

/-! ## The deadline -/

def deadlineKey : String := "liquidation.deadline"

structure DeadlineRule where
  days : ℤ := 30
  basis : Basis := .calendar
deriving DecidableEq, Repr

/-- The basis of a config object; an unknown one counts calendar days, and membership of an
unhashable value raises. -/
def readBasis (row : ConfigRow) : Except Raised Basis :=
  match row.field? "basis" with
  | some (.text "working") => .ok .working
  | some .compound => .error .typeError
  | _ => .ok .calendar

def readRule (config : Option ConfigRow) : Except Raised DeadlineRule :=
  match config with
  | none => .ok {}
  | some row =>
      match row.value with
      | none => .ok {}
      | some _ =>
          match row.int? "days" with
          | none => .ok {}
          | some days =>
              if days ≤ 0 then .ok {}
              else do
                let basis ← readBasis row
                return { days, basis }

def liquidationDeadline (dateReturn : Day) (rule : DeadlineRule) (nonworking : List Day) : Day :=
  match rule.basis with
  | .working => addWorkingDays dateReturn rule.days nonworking
  | .calendar => dateReturn + rule.days

def resolveDeadline (env : Env) (dateReturn : Option Day) (today : Day) :
    Except Raised (Option Day × Option Basis) :=
  match dateReturn with
  | none => .ok (none, none)
  | some date => do
      let rule ← readRule (effectiveConfig env.configs today deadlineKey)
      let nonworking := loadNonworkingDates env.holidays date (date + rule.days * 4 + 14)
      return (some (liquidationDeadline date rule nonworking), some rule.basis)

/-! ## Recording and editing an advance -/

def CashAdvance.unliquidated (a : CashAdvance) : Bool := a.status ≠ .settled

def openCashAdvanceFor (σ : Store) (claimantId : ℕ) : Option CashAdvance :=
  σ.advances.find? fun a => a.claimantId = claimantId ∧ a.unliquidated

def advanceIndex : String := "uq_reimb_cash_advances_open_per_claimant"

/-- The unique index of `reimb_cash_advances`, checked when the rows are flushed. -/
def flushAdvances (σ : Store) : Except Raised Store := do
  refuse (¬ ((σ.advances.filter CashAdvance.unliquidated).map (·.claimantId)).Nodup)
    (.integrityError advanceIndex)
  return σ

def validateAdvance (amount : ℤ) (dvDate dateReturn : Option Day) : Except Raised Unit := do
  refuse (amount ≤ 0) cashAdvanceAmountInvalid
  refuse (∃ dv ∈ dvDate, ∃ back ∈ dateReturn, back < dv) cashAdvanceDatesInvalid

structure CreateAdvance where
  claimantId : ℕ
  amount : ℚ
  dvNo : Option String := none
  dvDate : Option Day := none
  dpoNo : Option String := none
  dateReturn : Option Day := none
  now : Option Time := none
deriving DecidableEq, Repr

def createCashAdvance (env : Env) (r : CreateAdvance) (σ : Store) : Except Raised Store := do
  let today := manilaDate (env.at r.now)
  validateAdvance (toMoney r.amount) r.dvDate r.dateReturn
  absent (openCashAdvanceFor σ r.claimantId) fun a => cashAdvanceUnliquidated a.dvNo a.deadlineDate
  let (deadlineDate, deadlineBasis) ← resolveDeadline env r.dateReturn today
  onConflict advanceIndex (cashAdvanceUnliquidated none none) <| flushAdvances { σ with
    advances := σ.advances ++ [{
      claimantId := r.claimantId
      dvNo := r.dvNo
      dvDate := r.dvDate
      amount := toMoney r.amount
      dpoNo := r.dpoNo
      dateReturn := r.dateReturn
      deadlineDate := deadlineDate
      deadlineBasis := deadlineBasis }] }

/-- An edit; the outer `none` is a field the caller did not mention. -/
structure UpdateAdvance where
  cashAdvanceId : ℕ
  dvNo : Option (Option String) := none
  dvDate : Option (Option Day) := none
  dpoNo : Option (Option String) := none
  amount : Option (Option ℚ) := none
  dateReturn : Option (Option Day) := none
  now : Option Time := none
deriving DecidableEq, Repr

/-- The amount after the edit; `to_money(None)` raises. -/
def UpdateAdvance.amountOf (r : UpdateAdvance) (row : CashAdvance) : Except Raised ℤ :=
  match r.amount with
  | none => .ok row.amount
  | some none => .error .typeError
  | some (some q) => .ok (toMoney q)

/-- The deadline after the edit, and the status an overdue advance falls back to when its clock
moved. -/
def UpdateAdvance.clock (env : Env) (r : UpdateAdvance) (row : CashAdvance) :
    Except Raised (Option Day × Option Basis × AdvanceStatus) :=
  let dateReturn := r.dateReturn.getD row.dateReturn
  if dateReturn = row.dateReturn then .ok (row.deadlineDate, row.deadlineBasis, row.status)
  else do
    let (deadline, basis) ← resolveDeadline env dateReturn (manilaDate (env.at r.now))
    return (deadline, basis, if row.status = .overdue then .opened else row.status)

def updatedAdvance (env : Env) (r : UpdateAdvance) (row : CashAdvance) :
    Except Raised CashAdvance := do
  refuse (row.status = .settled) cashAdvanceSettled
  let amount ← r.amountOf row
  let dvDate := r.dvDate.getD row.dvDate
  let dateReturn := r.dateReturn.getD row.dateReturn
  validateAdvance amount dvDate dateReturn
  let (deadlineDate, deadlineBasis, status) ← r.clock env row
  return { row with
    dvNo := r.dvNo.getD row.dvNo
    dvDate := dvDate
    dpoNo := r.dpoNo.getD row.dpoNo
    amount := amount
    dateReturn := dateReturn
    deadlineDate := deadlineDate
    deadlineBasis := deadlineBasis
    status := status }

/-- Push a deadline onto every liquidation linked to the advance. -/
def remirrorDeadline (σ : Store) (advanceId : ℕ) (deadline : Option Day) : Store :=
  { σ with claims := σ.claims.map fun c =>
      if c.cashAdvanceId = some advanceId ∧ c.kind = .liquidation then
        { c with liquidationDeadline := deadline }
      else c }

/-- The edit and, as its route does, the mirror of a deadline that moved. -/
def updateCashAdvance (env : Env) (r : UpdateAdvance) (σ : Store) : Except Raised Store := do
  let row ← found σ.advances[r.cashAdvanceId]? cashAdvanceNotFound
  let row' ← updatedAdvance env r row
  let σ ← flushAdvances (σ.setAdvance r.cashAdvanceId fun _ => row')
  if row'.deadlineDate = row.deadlineDate then return σ
  else return remirrorDeadline σ r.cashAdvanceId row'.deadlineDate

/-- The sweep's flip of an advance past its deadline. -/
def markOverdue (advanceId : ℕ) (σ : Store) : Except Raised Store :=
  .ok (σ.setAdvance advanceId fun a =>
    if a.status = .opened ∨ a.status = .liquidationStarted then { a with status := .overdue }
    else a)

def markLiquidationStarted (σ : Store) (advanceId : ℕ) : Store :=
  σ.setAdvance advanceId fun a =>
    if a.status = .opened then { a with status := .liquidationStarted } else a

/-! ## Starting a liquidation -/

/-- The advance's live liquidation. -/
def liquidationForAdvance (σ : Store) (advanceId : ℕ) : Option (ℕ × Claim) :=
  (σ.claims.zipIdx.map Prod.swap).find? fun c =>
    c.2.cashAdvanceId = some advanceId ∧ c.2.kind = .liquidation ∧
      c.2.status ∈ liquidationVocabulary.allStates ∧ c.2.status ≠ .cancelled

structure StartLiquidation where
  cashAdvanceId : ℕ
  actorUserId : ℕ
  now : Option Time := none
deriving DecidableEq, Repr

def startLiquidation (env : Env) (r : StartLiquidation) (σ : Store) : Except Raised Store := do
  let advance ← found σ.advances[r.cashAdvanceId]? cashAdvanceNotFound
  refuse (advance.status = .settled) cashAdvanceAlreadySettledForLiquidation
  let actor ← found (env.directory.user? r.actorUserId) notAdvanceHolder
  refuse (actor.staffId ≠ some advance.claimantId) notAdvanceHolder
  absent (liquidationForAdvance σ r.cashAdvanceId) fun c =>
    liquidationExists (some (c.1, c.2.refNo))
  let (claimId, σ) ← createDraftClaim env σ r.actorUserId .liquidation (env.at r.now)
  let σ ← onConflict liquidationIndex (liquidationExists none) <|
    flushClaims (σ.setClaim claimId fun c => { c with
      trip := { c.trip with dpoNo := advance.dpoNo, dateReturn := advance.dateReturn }
      cashAdvanceId := some r.cashAdvanceId
      liquidationDeadline := advance.deadlineDate })
  return markLiquidationStarted σ r.cashAdvanceId

end OfficeConnect.Reimbursement
