import OfficeConnect.Reimbursement.Ledger
import OfficeConnect.Reimbursement.SettlementLaw
import OfficeConnect.Reimbursement.Standing

/-!
# The slots of an advance

An advance is begun once a liquidation is filed against it, one claimant holds one unsettled
advance, and one live liquidation answers it.  The two unique indexes keep the last two; the first
is lost by an edit that dates an overdue advance anew, which reopens it whoever is liquidating it.
-/

namespace OfficeConnect.Reimbursement

open Lib Workflow

/-! ## The rule and the condition -/

/-- The statuses of an advance that a liquidation has begun. -/
def begunStatuses : List AdvanceStatus := [.liquidationStarted, .overdue, .settled]

/-- The statuses the one slot of a claimant covers. -/
def heldStatuses : List AdvanceStatus := [.opened, .liquidationStarted, .overdue]

structure SlotsHeld (σ : Store) : Prop where
  begun : ∀ (i k : ℕ) (claim : Claim), σ.claims[i]? = some claim →
    claim.liveLiquidation = some k → ∃ a, σ.advances[k]? = some a ∧ a.status ∈ begunStatuses
  oneAdvance : ∀ (k k' : ℕ) (a a' : CashAdvance), σ.advances[k]? = some a →
    σ.advances[k']? = some a' → a.claimantId = a'.claimantId → a.status ∈ heldStatuses →
    a'.status ∈ heldStatuses → k = k'
  oneLiquidation : ∀ (i i' k : ℕ) (claim claim' : Claim), σ.claims[i]? = some claim →
    σ.claims[i']? = some claim' → claim.liveLiquidation = some k →
    claim'.liveLiquidation = some k → i = i'

/-- The edit of an advance a call makes. -/
def Call.edit? (c : Call) : Option UpdateAdvance :=
  match c.op with
  | .updateAdvance r => some r
  | _ => none

/-- No overdue advance is dated anew under a live liquidation. -/
def RedatesUnclaimed (σ : Store) (c : Call) : Prop :=
  ∀ r ∈ c.edit?, ∀ a ∈ σ.advances[r.cashAdvanceId]?, a.status = .overdue →
    r.dateReturn.getD a.dateReturn ≠ a.dateReturn →
    ∀ claim ∈ σ.claims, claim.liveLiquidation ≠ some r.cashAdvanceId

instance (σ : Store) (c : Call) : Decidable (RedatesUnclaimed σ c) :=
  inferInstanceAs (Decidable (∀ r ∈ c.edit?, ∀ a ∈ σ.advances[r.cashAdvanceId]?,
    a.status = .overdue → r.dateReturn.getD a.dateReturn ≠ a.dateReturn →
      ∀ claim ∈ σ.claims, claim.liveLiquidation ≠ some r.cashAdvanceId))

/-- No replay brings a cancelled liquidation back on an advance that is open again. -/
def RevivesNone (σ : Store) (c : Call) : Prop :=
  ∀ r ∈ c.action?, ∀ claim ∈ σ.claims[r.claimId]?, claim.kind = .liquidation →
    claim.status = .cancelled → ∀ k ∈ claim.cashAdvanceId, ∀ a ∈ σ.advances[k]?,
      a.status = .opened → ∀ inst ∈ σ.instanceOf claim, ∀ e ∈ replayed inst (r.key inst),
        ∀ dest ∈ (eventState e).toOption, dest.code = .cancelled

instance (σ : Store) (c : Call) : Decidable (RevivesNone σ c) :=
  inferInstanceAs (Decidable (∀ r ∈ c.action?, ∀ claim ∈ σ.claims[r.claimId]?,
    claim.kind = .liquidation → claim.status = .cancelled → ∀ k ∈ claim.cashAdvanceId,
      ∀ a ∈ σ.advances[k]?, a.status = .opened → ∀ inst ∈ σ.instanceOf claim,
        ∀ e ∈ replayed inst (r.key inst), ∀ dest ∈ (eventState e).toOption,
          dest.code = .cancelled))

/-- No call reopens an advance under a liquidation. -/
def ReopensNone (σ : Store) (c : Call) : Prop := RedatesUnclaimed σ c ∧ RevivesNone σ c

instance (σ : Store) (c : Call) : Decidable (ReopensNone σ c) :=
  inferInstanceAs (Decidable (_ ∧ _))

/-! ## One advance a claimant -/

/-- The claimant whose slot an advance takes. -/
def CashAdvance.holder? (a : CashAdvance) : Option ℕ :=
  if a.unliquidated then some a.claimantId else none

theorem oneAdvance_iff {advances : List CashAdvance} :
    OneAdvance advances ↔ (advances.filterMap CashAdvance.holder?).Nodup := by
  rw [OneAdvance, map_filter_eq_filterMap]
  rfl

theorem holder_of_held {a : CashAdvance} (h : a.status ∈ heldStatuses) :
    a.holder? = some a.claimantId := by
  have hopen : a.unliquidated = true := by
    cases hs : a.status <;> simp_all [heldStatuses, CashAdvance.unliquidated]
  rw [CashAdvance.holder?, if_pos hopen]

section

variable {c : Call} {σ σ' : Store} {i k : ℕ} {claim' : Claim}

theorem Entry.oneAdvance {deeds : List Deed} {advances : List CashAdvance}
    (h : Entry c σ deeds advances) (hone : OneAdvance σ.advances) : OneAdvance advances := by
  have hkept : ∀ {n : ℕ} {f : CashAdvance → CashAdvance}, (∀ a, (f a).holder? = a.holder?) →
      OneAdvance (σ.advances.modify n f) := by
    intro n f hf
    rw [oneAdvance_iff] at hone ⊢
    have hcolumn := congrArg (List.filterMap id) (map_modify_of_eq hf n σ.advances)
    rw [List.filterMap_map, List.filterMap_map] at hcolumn
    exact hcolumn ▸ hone
  cases h with
  | kept => exact hone
  | filed d hpay hadv => exact hone
  | begun r a d hr hrow hopen hpay hadv =>
      refine hkept fun a => ?_
      unfold CashAdvance.begin
      split_ifs with hstatus
      · simp [CashAdvance.holder?, CashAdvance.unliquidated, hstatus]
      · rfl
  | paid r claim reference day hr hclaim hkind hstatus => exact hone
  | opened a hopen hone' => exact hone'
  | edited r a a' hr hrow hedit hone' => exact hone'
  | lapsed n =>
      refine hkept fun a => ?_
      unfold CashAdvance.lapse
      split_ifs with hstatus
      · rcases hstatus with hstatus | hstatus <;>
          simp [CashAdvance.holder?, CashAdvance.unliquidated, hstatus]
      · rfl
  | closed r n t hr hok =>
      rw [oneAdvance_iff] at hone ⊢
      refine (filterMap_modify_sublist n σ.advances fun a _ => ?_).nodup hone
      simp [CashAdvance.holder?, CashAdvance.unliquidated, CashAdvance.markSettled]

/-! ## Begun advances -/

/-- Only a new return date reopens an advance. -/
theorem updatedAdvance_reopens {env : Env} {r : UpdateAdvance} {a a' : CashAdvance}
    (h : updatedAdvance env r a = .ok a') (hopen : a'.status = .opened)
    (hbegun : a.status ≠ .opened) :
    a.status = .overdue ∧ r.dateReturn.getD a.dateReturn ≠ a.dateReturn := by
  simp only [updatedAdvance, UpdateAdvance.clock, bind_eq_ok, refuse_eq_ok, pure_eq_ok] at h
  obtain ⟨-, -, amount, -, -, -, x, hclock, rfl⟩ := h
  change x.2.2 = .opened at hopen
  split_ifs at hclock with hsame hoverdue
  · obtain rfl := Except.ok.inj hclock
    exact absurd hopen hbegun
  · exact ⟨hoverdue, hsame⟩
  · simp only [bind_eq_ok, pure_eq_ok] at hclock
    obtain ⟨_, -, rfl⟩ := hclock
    exact absurd hopen hbegun

/-- An advance stays on record, and stays begun unless it is dated anew. -/
theorem Entry.begun_kept {deeds : List Deed} {advances : List CashAdvance} {a : CashAdvance}
    (h : Entry c σ deeds advances) (ha : σ.advances[k]? = some a) :
    ∃ a', advances[k]? = some a' ∧ (a.status ≠ .opened → a'.status = .opened →
      ∃ r, c.op = .updateAdvance r ∧ r.cashAdvanceId = k ∧ a.status = .overdue ∧
        r.dateReturn.getD a.dateReturn ≠ a.dateReturn) := by
  have hlt : k < σ.advances.length := (List.getElem?_eq_some_iff.1 ha).1
  have hflip : ∀ {n : ℕ} {f : CashAdvance → CashAdvance},
      (∀ b : CashAdvance, b.status ≠ .opened → (f b).status ≠ .opened) →
      ∃ a', (σ.advances.modify n f)[k]? = some a' ∧ (a.status ≠ .opened → a'.status = .opened →
        ∃ r, c.op = .updateAdvance r ∧ r.cashAdvanceId = k ∧ a.status = .overdue ∧
          r.dateReturn.getD a.dateReturn ≠ a.dateReturn) := by
    intro n f hf
    by_cases hn : n = k
    · subst hn
      exact ⟨f a, getElem?_modify_self f ha, fun hbegun hopen => absurd hopen (hf a hbegun)⟩
    · exact ⟨a, by rw [List.getElem?_modify_ne _ _ hn, ha],
        fun hbegun hopen => absurd hopen hbegun⟩
  cases h with
  | begun r b d hr hrow hopen hpay hadv =>
      refine hflip fun b hb => ?_
      unfold CashAdvance.begin
      split_ifs
      · simp
      · exact hb
  | opened b hopen hone =>
      exact ⟨a, by rw [List.getElem?_append_left hlt, ha],
        fun hbegun hopen => absurd hopen hbegun⟩
  | edited r b b' hr hrow hedit hone =>
      by_cases hk : r.cashAdvanceId = k
      · subst hk
        obtain rfl := Option.some.inj (ha.symm.trans hrow)
        refine ⟨b', getElem?_modify_self _ ha, fun hbegun hopen => ⟨r, hr, rfl, ?_⟩⟩
        exact updatedAdvance_reopens hedit hopen hbegun
      · exact ⟨a, by rw [List.getElem?_modify_ne _ _ hk, ha],
          fun hbegun hopen => absurd hopen hbegun⟩
  | lapsed n =>
      refine hflip fun b hb => ?_
      unfold CashAdvance.lapse
      split_ifs
      · simp
      · exact hb
  | closed r n t hr hok =>
      refine hflip fun b _ => ?_
      simp [CashAdvance.markSettled]
  | _ => exact ⟨a, ha, fun hbegun hopen => absurd hopen hbegun⟩

/-! ## The invariant -/

/-- A liquidation's advance is on record, begun while the liquidation is live. -/
structure Slots (σ : Store) : Prop where
  advance : ∀ (i k : ℕ) (claim : Claim), σ.claims[i]? = some claim → claim.kind = .liquidation →
    claim.cashAdvanceId = some k →
    ∃ a, σ.advances[k]? = some a ∧ (claim.status ≠ .cancelled → a.status ≠ .opened)
  one : OneAdvance σ.advances

/-- A claim that was cancelled and is not is on an advance that was begun. -/
theorem begun_of_revived {claim : Claim} {f f' : CaseFile} {a : CashAdvance}
    (hfs : FileStep c i f f') (hf : σ.file? i = some f) (hstanding : Standing f)
    (hc : RevivesNone σ c) (hclaim : σ.claims[i]? = some claim)
    (hkind : claim.kind = .liquidation) (hadvance : claim.cashAdvanceId = some k)
    (ha : σ.advances[k]? = some a) (hcancelled : claim.status = .cancelled)
    (hlive : f'.spine.status ≠ .cancelled) : c.action? ≠ none ∧ a.status ≠ .opened := by
  have hfile := exists_file hclaim
  obtain rfl := Option.some.inj (hf.symm.trans hfile)
  rcases hfs.terminal_cases hstanding (by
    change claim.status ∈ (vocabulary claim.kind).terminal
    rw [hcancelled, hkind]
    decide) with hsame | ⟨r, inst, e, dest, hr, rfl, hinst, hreplay, hdest, hstatus⟩
  · exact absurd (hsame.trans hcancelled) hlive
  · refine ⟨by simp [hr], fun hopen => hlive (hstatus.trans ?_)⟩
    exact hc r hr claim hclaim hkind hcancelled k hadvance a ha hopen inst hinst e hreplay dest
      (by rw [hdest]; rfl)

theorem Slots.step (h : Slots σ) (hreg : Regular σ)
    (hstanding : ∀ i f, σ.file? i = some f → Standing f) (hc : ReopensNone σ c)
    (hstep : c.step σ = .ok σ') : Slots σ' := by
  have hentry := Call.step_enters hstep
  refine ⟨fun i k claim' hclaim' hkind' hadvance' => ?_, hentry.oneAdvance h.one⟩
  rcases hreg.file_step hstep (exists_file hclaim') with ⟨f, hf, hfs⟩ | ⟨hnone, -⟩
  · obtain ⟨claim, hclaim, hspine, -⟩ := file_claim hf
    obtain ⟨hkind, hadvance, -⟩ := hfs.origin_eq
    rw [← hspine] at hkind hadvance
    have hkind₀ : claim.kind = .liquidation := hkind.symm.trans hkind'
    have hadvance₀ : claim.cashAdvanceId = some k := hadvance.symm.trans hadvance'
    obtain ⟨a, ha, hbegun⟩ := h.advance i k claim hclaim hkind₀ hadvance₀
    obtain ⟨a', ha', hkept⟩ := hentry.begun_kept ha
    refine ⟨a', ha', fun hlive hopen => ?_⟩
    by_cases hcancelled : claim.status = .cancelled
    · obtain ⟨hacts, hwas⟩ := begun_of_revived hfs hf (hstanding i f hf) hc.2 hclaim hkind₀ hadvance₀
        ha hcancelled hlive
      obtain ⟨r, hop, rfl, -⟩ := hkept hwas hopen
      exact hacts (by simp [Call.action?, hop])
    · obtain ⟨r, hop, rfl, hoverdue, hmoved⟩ := hkept (hbegun hcancelled) hopen
      exact hc.1 r (by simp [Call.edit?, hop]) a ha hoverdue hmoved claim
        (List.mem_of_getElem? hclaim) (liveLiquidation_eq_some.2 ⟨hkind₀, hcancelled, hadvance₀⟩)
  · obtain ⟨⟨a, ha, -⟩, hadv⟩ := (hentry.new_claim (deeds_eq_none (claims_eq_none hnone))
      (deeds_getElem? hclaim')).2 hkind' k hadvance'
    refine ⟨a.begin, ?_, fun _ => ?_⟩
    · rw [hadv]
      exact getElem?_modify_self _ ha
    · unfold CashAdvance.begin
      split_ifs with hopen
      · simp
      · exact hopen

theorem Slots.slotsHeld (h : Slots σ) (hreg : Regular σ) : SlotsHeld σ where
  begun i k claim hclaim hlive := by
    obtain ⟨hkind, hstatus, hadvance⟩ := liveLiquidation_eq_some.1 hlive
    obtain ⟨a, ha, hbegun⟩ := h.advance i k claim hclaim hkind hadvance
    refine ⟨a, ha, ?_⟩
    have hopen := hbegun hstatus
    cases hs : a.status with
    | opened => exact absurd hs hopen
    | liquidationStarted => decide
    | settled => decide
    | overdue => decide
  oneAdvance k k' a a' ha ha' hclaimant hheld hheld' := by
    refine eq_of_nodup_filterMap (oneAdvance_iff.1 h.one) ha ha' (holder_of_held hheld) ?_
    rw [holder_of_held hheld', hclaimant]
  oneLiquidation i i' k claim claim' hclaim hclaim' hlive hlive' :=
    eq_of_nodup_filterMap hreg.indexed.liquidation hclaim hclaim' hlive hlive'

end

/-! ## Runs -/

/-- In every run in which no call that returns reopens an advance under a liquidation, live
liquidations are of begun advances, one to an advance, and a claimant holds one unsettled advance. -/
theorem slotsHeld_runStore (calls : List Call)
    (hcalls : Conforms Call.step (OnReturn Call.step ReopensNone) {} calls) :
    SlotsHeld (runStore calls) := by
  have hslots : Slots (runStore calls) := by
    refine reachable_invariant (I := Slots) (fun done c σ' hc h hok => ?_) ⟨?_, ?_⟩ calls hcalls
    · have hnone : ReopensNone (runStore done) c := hc.of_ok hok
      exact h.step (regular_runStore done) (fun i f hf => standing_runStore done hf) hnone hok
    · simp
    · simp [OneAdvance]
  exact hslots.slotsHeld (regular_runStore calls)

/-- An advance due on 8 December 2025 is being liquidated when the sweep finds it overdue. -/
def overdueTrip : List Op := [
  .createAdvance { claimantId := 1, amount := 1000, dateReturn := some 20400 },
  .startLiquidation { cashAdvanceId := 0, actorUserId := 1 },
  .markOverdue 0]

/-- The return date is corrected to 28 December. -/
def redateTrip : Op := .updateAdvance { cashAdvanceId := 0, dateReturn := some (some 20450) }

/-- The draft is dropped before the correction, which reopens the advance. -/
def dropTrip : List Op := overdueTrip ++ [
  .cancelDraft { claimId := 0, actorUserId := 1, comment := "wrong dates" }, redateTrip]

/-- The advance is then liquidated anew. -/
theorem dropTrip_slotsHeld :
    (runStore (inOffice dropTrip)).advances.map (·.status) = [.opened] ∧
    SlotsHeld (runStore (inOffice (dropTrip ++ [
      .startLiquidation { cashAdvanceId := 0, actorUserId := 1 }]))) :=
  ⟨by decide +kernel, slotsHeld_runStore _ (Conforms.onReturn (P := ReopensNone) (by decide +kernel))⟩

/-- While the draft is live the same correction leaves its advance open. -/
theorem redateTrip_not_slotsHeld :
    ¬ SlotsHeld (runStore (inOffice (overdueTrip ++ [redateTrip]))) := by
  intro h
  set σ := runStore (inOffice (overdueTrip ++ [redateTrip])) with hσ
  obtain ⟨claim, hclaim, hlive⟩ := exists_eq_some (o := σ.claims[0]?)
    (fun c => c.liveLiquidation = some 0) (by rw [hσ]; decide +kernel)
  obtain ⟨a, ha, hopen⟩ := exists_eq_some (o := σ.advances[0]?)
    (fun a => a.status = .opened) (by rw [hσ]; decide +kernel)
  obtain ⟨a', ha', hbegun⟩ := h.begun 0 0 claim hclaim (by simpa using hlive)
  obtain rfl := Option.some.inj (ha.symm.trans ha')
  rw [show a.status = .opened by simpa using hopen] at hbegun
  exact absurd hbegun (by decide)

end OfficeConnect.Reimbursement
