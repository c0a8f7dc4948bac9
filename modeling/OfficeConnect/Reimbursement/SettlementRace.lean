import OfficeConnect.Lib.Session
import OfficeConnect.Reimbursement.Ledger

/-!
# Editing an advance while it is settled

Two routes write an advance.  A settlement locks the row, so what it reads is what it writes onto.
An edit reads the row without a lock, decides on what it read, and writes the columns it changed
whenever the lock is free: a settlement that commits in between is edited after the fact.
-/

namespace OfficeConnect.Reimbursement

open Lib Session

/-! ## The two routes -/

/-- The `UPDATE` of an edited copy, column by column, onto the row as it stands. -/
def CashAdvance.flush (copy edited row : CashAdvance) : CashAdvance where
  claimantId := column copy.claimantId edited.claimantId row.claimantId
  dvNo := column copy.dvNo edited.dvNo row.dvNo
  dvDate := column copy.dvDate edited.dvDate row.dvDate
  amount := column copy.amount edited.amount row.amount
  dpoNo := column copy.dpoNo edited.dpoNo row.dpoNo
  dateReturn := column copy.dateReturn edited.dateReturn row.dateReturn
  deadlineDate := column copy.deadlineDate edited.deadlineDate row.deadlineDate
  deadlineBasis := column copy.deadlineBasis edited.deadlineBasis row.deadlineBasis
  status := column copy.status edited.status row.status
  settledAt := column copy.settledAt edited.settledAt row.settledAt
  settledBy := column copy.settledBy edited.settledBy row.settledBy
  settlementMode := column copy.settlementMode edited.settlementMode row.settlementMode
  refundOrNo := column copy.refundOrNo edited.refundOrNo row.refundOrNo
  refundOrDate := column copy.refundOrDate edited.refundOrDate row.refundOrDate
  refundAmount := column copy.refundAmount edited.refundAmount row.refundAmount

inductive AdvanceRequest where
  | patch (r : UpdateAdvance)
  | settle (r : Settle)
deriving DecidableEq, Repr

/-- The edit's write: the changed columns, and the mirror of a deadline that moved. -/
def flushEdit (k : ℕ) (copy edited : CashAdvance) (σ : Store) : Except Raised Store := do
  let σ ← flushAdvances (σ.setAdvance k (copy.flush edited))
  if edited.deadlineDate = copy.deadlineDate then return σ
  else return remirrorDeadline σ k edited.deadlineDate

/-- A settlement by a session whose copy of advance `k` is `copy`. -/
def flushSettlement (env : Env) (r : Settle) (k : ℕ) (copy : CashAdvance) (σ : Store) :
    Except Raised Store := do
  let σ' ← recordSettlement env r (σ.setAdvance k fun _ => copy)
  return σ'.setAdvance k fun edited =>
    (σ.advances[k]?.map fun row => copy.flush edited row).getD edited

/-- How a request works on advance `k`; what it decides is its copy and the copy edited. -/
def AdvanceRequest.plan (env : Env) (k : ℕ) :
    AdvanceRequest → Plan Store (Option CashAdvance) (CashAdvance × CashAdvance) Raised
  | .patch r => {
      preloads := true
      locks := false
      check := fun copy => do
        let row ← found copy cashAdvanceNotFound
        let edited ← updatedAdvance env r row
        return (row, edited)
      write := fun d => flushEdit k d.1 d.2 }
  | .settle r => {
      preloads := false
      locks := true
      check := fun copy => do
        let row ← found copy cashAdvanceNotFound
        return (row, row)
      write := fun d => flushSettlement env r k d.1 }

def AdvanceRequest.edit? : AdvanceRequest → Option UpdateAdvance
  | .patch r => some r
  | .settle _ => none

section

variable {ι : Type*} [DecidableEq ι] (env : ι → Env) (request : ι → AdvanceRequest) (k : ℕ)

/-- One move of the requests on advance `k`. -/
def advanceStep :
    ι × Move → Db ι Store (Option CashAdvance) (CashAdvance × CashAdvance) Raised →
      Except Unit (Db ι Store (Option CashAdvance) (CashAdvance × CashAdvance) Raised) :=
  step (fun σ => σ.advances[k]?) fun i => (request i).plan (env i) k

end

/-! ## The rule and the condition -/

/-- A settled advance stays settled, with its amount and its return date. -/
def StaysClosed (k : ℕ) (σ σ' : Store) : Prop :=
  ∀ row ∈ σ.advances[k]?, row.status = .settled → ∃ row' ∈ σ'.advances[k]?,
    row'.status = .settled ∧ row'.amount = row.amount ∧ row'.dateReturn = row.dateReturn

instance (k : ℕ) (σ σ' : Store) : Decidable (StaysClosed k σ σ') :=
  inferInstanceAs (Decidable (∀ row ∈ σ.advances[k]?, row.status = .settled →
    ∃ row' ∈ σ'.advances[k]?, row'.status = .settled ∧ row'.amount = row.amount ∧
      row'.dateReturn = row.dateReturn))

/-- The edit leaves the amount and the return date of the row it read. -/
def UpdateAdvance.KeepsTerms (r : UpdateAdvance) (row : CashAdvance) : Prop :=
  (∀ q ∈ r.amount.join, toMoney q = row.amount) ∧ ∀ d ∈ r.dateReturn, d = row.dateReturn

instance (r : UpdateAdvance) (row : CashAdvance) : Decidable (r.KeepsTerms row) :=
  inferInstanceAs (Decidable (_ ∧ _))

/-- An edit whose row was settled after it was read changes neither amount nor return date. -/
def EditsInTime {ι : Type*} (request : ι → AdvanceRequest) (k : ℕ)
    (s : Db ι Store (Option CashAdvance) (CashAdvance × CashAdvance) Raised) (m : ι × Move) :
    Prop :=
  m.2 = .write → (∃ row ∈ s.row.advances[k]?, row.status = .settled) →
    ∀ r ∈ (request m.1).edit?, ∀ copy ∈ (s.phase m.1).copy.join, r.KeepsTerms copy

instance {ι : Type*} (request : ι → AdvanceRequest) (k : ℕ)
    (s : Db ι Store (Option CashAdvance) (CashAdvance × CashAdvance) Raised) (m : ι × Move) :
    Decidable (EditsInTime request k s m) :=
  inferInstanceAs (Decidable (m.2 = .write →
    (∃ row ∈ s.row.advances[k]?, row.status = .settled) →
      ∀ r ∈ (request m.1).edit?, ∀ copy ∈ (s.phase m.1).copy.join, r.KeepsTerms copy))

theorem staysClosed_refl (k : ℕ) (σ : Store) : StaysClosed k σ σ :=
  fun row hrow hsettled => ⟨row, hrow, hsettled, rfl, rfl⟩

theorem StaysClosed.trans {k : ℕ} {σ₁ σ₂ σ₃ : Store} (h : StaysClosed k σ₁ σ₂)
    (h' : StaysClosed k σ₂ σ₃) : StaysClosed k σ₁ σ₃ := by
  intro row hrow hsettled
  obtain ⟨row₂, hrow₂, hsettled₂, hamount₂, hdate₂⟩ := h row hrow hsettled
  obtain ⟨row₃, hrow₃, hsettled₃, hamount₃, hdate₃⟩ := h' row₂ hrow₂ hsettled₂
  exact ⟨row₃, hrow₃, hsettled₃, hamount₃.trans hamount₂, hdate₃.trans hdate₂⟩

/-! ## The two writes -/

section

variable {env : Env} {k : ℕ} {σ σ' : Store} {row edited : CashAdvance}

theorem CashAdvance.flush_self (copy edited : CashAdvance) : copy.flush edited copy = edited := by
  simp [CashAdvance.flush]

theorem flushEdit_advances (h : flushEdit k row edited σ = .ok σ') :
    σ'.advances = σ.advances.modify k (row.flush edited) := by
  simp only [flushEdit, bind_eq_ok, flushAdvances_eq_ok] at h
  obtain ⟨_, ⟨rfl, -⟩, h⟩ := h
  split_ifs at h
  · obtain rfl := pure_eq_ok.1 h
    rfl
  · obtain rfl := pure_eq_ok.1 h
    rfl

/-- A settlement whose copy is the row is the settlement. -/
theorem flushSettlement_fresh {r : Settle} (hrow : σ.advances[k]? = some row) :
    flushSettlement env r k row σ = recordSettlement env r σ := by
  have hview : (σ.setAdvance k fun _ => row) = σ := by
    simp [Store.setAdvance, modify_const_self hrow]
  have hflush : (fun edited => (σ.advances[k]?.map fun r => row.flush edited r).getD edited) =
      id := by
    funext edited
    simp [hrow, CashAdvance.flush_self]
  rw [flushSettlement, hview, hflush]
  cases recordSettlement env r σ with
  | error e => rfl
  | ok σ' =>
      refine congrArg Except.ok ?_
      simp [Store.setAdvance, List.modify_id]

theorem updatedAdvance_terms {r : UpdateAdvance} (h : updatedAdvance env r row = .ok edited)
    (hkeep : r.KeepsTerms row) : edited.status = row.status ∧ edited.amount = row.amount ∧
      edited.dateReturn = row.dateReturn := by
  simp only [updatedAdvance, bind_eq_ok, refuse_eq_ok, pure_eq_ok] at h
  obtain ⟨-, -, amount, hamount, -, -, x, hclock, rfl⟩ := h
  have hdate : r.dateReturn.getD row.dateReturn = row.dateReturn := by
    cases hd : r.dateReturn with
    | none => rfl
    | some d => exact hkeep.2 d hd
  rw [UpdateAdvance.clock, if_pos hdate] at hclock
  obtain rfl := Except.ok.inj hclock
  refine ⟨rfl, ?_, hdate⟩
  unfold UpdateAdvance.amountOf at hamount
  split at hamount
  · exact (Except.ok.inj hamount).symm
  · cases hamount
  · obtain rfl := Except.ok.inj hamount
    exact hkeep.1 _ (by simp [*])

theorem staysClosed_edit {r : UpdateAdvance} (hedit : updatedAdvance env r row = .ok edited)
    (hkeep : (∃ cur ∈ σ.advances[k]?, cur.status = .settled) → r.KeepsTerms row)
    (h : flushEdit k row edited σ = .ok σ') : StaysClosed k σ σ' := by
  intro cur hcur hsettled
  obtain ⟨hstatus, hamount, hdate⟩ := updatedAdvance_terms hedit (hkeep ⟨cur, hcur, hsettled⟩)
  refine ⟨row.flush edited cur, ?_, ?_, column_of_eq hamount _, column_of_eq hdate _⟩
  · rw [flushEdit_advances h]
    exact getElem?_modify_self _ hcur
  · exact (column_of_eq hstatus _).trans hsettled

theorem staysClosed_settlement {r : Settle} (h : recordSettlement env r σ = .ok σ') :
    StaysClosed k σ σ' := by
  intro cur hcur hsettled
  have hentry : Enters { env := env, op := .settle r } σ σ' := enters_recordSettlement rfl h
  exact ⟨cur, hentry.settled_kept hcur hsettled, hsettled, rfl, rfl⟩

end

/-! ## Runs -/

/-- In every interleaving in which no edit changes the amount or the return date of an advance
settled since it was read, a settled advance stays settled and keeps both. -/
theorem staysClosed_run {ι : Type*} [DecidableEq ι] (env : ι → Env)
    (request : ι → AdvanceRequest) (k : ℕ) (σ : Store) (moves more : List (ι × Move))
    (h : Conforms (advanceStep env request k) (EditsInTime request k) { row := σ }
      (moves ++ more)) :
    StaysClosed k (run (advanceStep env request k) { row := σ } moves).row
      (run (advanceStep env request k) { row := σ } (moves ++ more)).row := by
  refine related_run (fun i => (request i).edit? = none) (staysClosed_refl k)
    (fun _ _ _ h h' => h.trans h') ?_ ?_ ?_ h
  · intro i hi
    cases hr : request i with
    | patch r => simp [hr, AdvanceRequest.edit?] at hi
    | settle r => rfl
  · -- a settlement never loads the advance before it locks it
    intro s m hsound _ _ hi c hc
    have hpre := (hsound m.1).preloads c (Phase.eq_loaded hc)
    cases hr : request m.1 with
    | patch r => simp [hr, AdvanceRequest.edit?] at hi
    | settle r => simp [hr, AdvanceRequest.plan] at hpre
  · intro s i c d σ' hsound hdate hphase hwrite
    have hi := hsound i
    rw [hphase] at hi
    have hcheck := hi.checked c d rfl
    cases hr : request i with
    | patch r =>
        simp only [hr, AdvanceRequest.plan, bind_eq_ok, found_eq_ok, pure_eq_ok] at hcheck hwrite
        obtain ⟨row, rfl, edited, hedit, rfl⟩ := hcheck
        refine staysClosed_edit hedit (fun hsettled => ?_) hwrite
        exact hdate rfl hsettled r (by simp [hr, AdvanceRequest.edit?]) row
          (by simp [hphase, Phase.copy])
    | settle r =>
        simp only [hr, AdvanceRequest.plan, bind_eq_ok, found_eq_ok, pure_eq_ok] at hcheck hwrite
        obtain ⟨row, rfl, rfl⟩ := hcheck
        have hfresh := hi.fresh (by simp [hr, AdvanceRequest.edit?]) _ rfl
        rw [flushSettlement_fresh hfresh.symm] at hwrite
        exact staysClosed_settlement hwrite

/-- An overdue advance whose liquidation is with FMS. -/
def lateTrip : List Op := [
  .createAdvance { claimantId := 1, amount := 1000, dateReturn := some 20400 },
  .startLiquidation { cashAdvanceId := 0, actorUserId := 1 }] ++ fileTrip 0 ++ signTrip 0 ++ [
  .markOverdue 0]

/-- One request edits the advance and the other settles it. -/
def editAndSettle (r : UpdateAdvance) : Bool → AdvanceRequest
  | false => .patch r
  | true => .settle { claimId := 0, actorUserId := 3 }

/-- The edit reads the advance, and then the settlement runs from its lock to its commit. -/
def settledUnderEdit : List (Bool × Move) :=
  [(false, .load), (true, .lock), (true, .check), (true, .write), (true, .commit)]

/-- The edit goes on from what it read. -/
def editGoesOn : List (Bool × Move) := [(false, .check), (false, .write), (false, .commit)]

/-- An edit that corrects only the voucher number may come late. -/
theorem voucherEdit_staysClosed :
    let request := editAndSettle { cashAdvanceId := 0, dvNo := some (some "25-12-0091") }
    let race := run (advanceStep (fun _ => office) request 0) { row := runStore (inOffice lateTrip) }
    ((race settledUnderEdit).row.advances[0]?.map (·.status) = some .settled ∧
      (race (settledUnderEdit ++ editGoesOn)).row.advances[0]?.map (·.dvNo) =
        some (some "25-12-0091")) ∧
    StaysClosed 0 (race settledUnderEdit).row (race (settledUnderEdit ++ editGoesOn)).row :=
  ⟨by decide +kernel, staysClosed_run _ _ _ _ _ _ (by decide +kernel)⟩

/-- An edit of the amount and the return date reopens the advance that was settled under it. -/
theorem redatingEdit_not_staysClosed :
    let request := editAndSettle
      { cashAdvanceId := 0, amount := some (some 1500), dateReturn := some (some 20450) }
    let race := run (advanceStep (fun _ => office) request 0) { row := runStore (inOffice lateTrip) }
    (race settledUnderEdit).row.advances[0]?.map (fun a => (a.status, a.amount, a.dateReturn)) =
        some (.settled, 100000, some 20400) ∧
      (race (settledUnderEdit ++ editGoesOn)).row.advances[0]?.map
        (fun a => (a.status, a.amount, a.dateReturn)) = some (.opened, 150000, some 20450) ∧
      ¬ StaysClosed 0 (race settledUnderEdit).row (race (settledUnderEdit ++ editGoesOn)).row := by
  decide +kernel

end OfficeConnect.Reimbursement
