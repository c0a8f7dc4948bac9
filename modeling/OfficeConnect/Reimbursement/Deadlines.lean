import OfficeConnect.Reimbursement.Ledger

/-!
# Pinned deadlines and their mirrors

An advance's liquidation deadline is computed when its return date is written and pinned: later
config and holiday rows do not move it.  A liquidation carries a copy of the deadline of its
advance, written when it is filed and again whenever the deadline moves.
-/

namespace OfficeConnect.Reimbursement

open Lib Workflow

/-! ## What a call does to the deadlines -/

/-- The clock columns of an advance. -/
structure Pin where
  dateReturn : Option Day
  deadlineDate : Option Day
  deadlineBasis : Option Basis
deriving DecidableEq, Repr

def CashAdvance.pin (a : CashAdvance) : Pin :=
  { dateReturn := a.dateReturn, deadlineDate := a.deadlineDate, deadlineBasis := a.deadlineBasis }

def Store.pins (σ : Store) : List Pin := σ.advances.map CashAdvance.pin

/-- The columns of a claim that say which deadline it shows. -/
structure Countdown where
  kind : Kind
  cashAdvanceId : Option ℕ
  liquidationDeadline : Option Day
deriving DecidableEq, Repr

def Claim.countdown (c : Claim) : Countdown :=
  { kind := c.kind
    cashAdvanceId := c.cashAdvanceId
    liquidationDeadline := c.liquidationDeadline }

def Store.countdowns (σ : Store) : List Countdown := σ.claims.map Claim.countdown

/-- The mirror of a moved deadline. -/
def Countdown.remirror (k : ℕ) (deadline : Option Day) (c : Countdown) : Countdown :=
  if c.cashAdvanceId = some k ∧ c.kind = .liquidation then { c with liquidationDeadline := deadline }
  else c

/-- The Manila date a call dates its deadline by. -/
def Call.today (c : Call) : Day :=
  match c.op with
  | .createAdvance r => manilaDate (c.env.at r.now)
  | .updateAdvance r => manilaDate (c.env.at r.now)
  | _ => manilaDate c.env.utcNow

/-- The call resolves this deadline for the return date it writes. -/
def Pin.ResolvedBy (c : Call) (p : Pin) : Prop :=
  resolveDeadline c.env p.dateReturn c.today = .ok (p.deadlineDate, p.deadlineBasis)

/-- What a returning call does to the deadlines. -/
inductive Redated (c : Call) (σ : Store) : List Countdown → List Pin → Prop
  | kept : Redated c σ σ.countdowns σ.pins
  | filed (d : Countdown) (hnone : d.liquidationDeadline = none)
      (hlink : d.kind = .liquidation → d.cashAdvanceId = none) :
      Redated c σ (σ.countdowns ++ [d]) σ.pins
  | begun (k : ℕ) (p : Pin) (hrow : σ.pins[k]? = some p) :
      Redated c σ (σ.countdowns ++ [{
        kind := .liquidation
        cashAdvanceId := some k
        liquidationDeadline := p.deadlineDate }]) σ.pins
  | opened (p : Pin) (hp : p.ResolvedBy c) : Redated c σ σ.countdowns (σ.pins ++ [p])
  | moved (k : ℕ) (p p' : Pin) (hrow : σ.pins[k]? = some p) (hdate : p'.dateReturn ≠ p.dateReturn)
      (hp : p'.ResolvedBy c) (hsame : p'.deadlineDate = p.deadlineDate) :
      Redated c σ σ.countdowns (σ.pins.modify k fun _ => p')
  | mirrored (k : ℕ) (p p' : Pin) (hrow : σ.pins[k]? = some p)
      (hdate : p'.dateReturn ≠ p.dateReturn) (hp : p'.ResolvedBy c) :
      Redated c σ (σ.countdowns.map (.remirror k p'.deadlineDate)) (σ.pins.modify k fun _ => p')

section

variable {env : Env} {σ σ₁ σ' : Store} {i j k : ℕ} {claim : Claim} {now : Time} {c : Call}

theorem redated_of_eq (hd : σ'.countdowns = σ.countdowns) (hp : σ'.pins = σ.pins) :
    Redated c σ σ'.countdowns σ'.pins := by
  rw [hd, hp]
  exact .kept

/-! ## The lifecycle calls -/

theorem computeClaimTotals_countdowns {other : Option ℚ}
    (h : computeClaimTotals env σ i other = .ok σ') :
    σ'.countdowns = σ.countdowns ∧ σ'.pins = σ.pins := by
  obtain ⟨claim, result, -, -, rfl⟩ := computeClaimTotals_eq_ok h
  refine ⟨map_modify_of_eq (fun c => ?_) _ _, rfl⟩
  rfl

theorem Performed.countdowns {r : Request} {inst inst' : Instance} {v : Published Status} {e : Event}
    {dest : State Status} {returns : List ReturnEvent}
    (h : Performed env σ i j r claim inst v e inst' dest returns σ') :
    σ'.countdowns = σ.countdowns ∧ σ'.pins = σ.pins := by
  obtain ⟨claims, history, hmirror, rfl⟩ := h.result
  refine ⟨?_, rfl⟩
  rcases hmirror with ⟨-, rfl, -⟩ | ⟨-, holder, -, rfl, -, -⟩
  · rfl
  · refine map_modify_of_eq (fun c => ?_) _ _
    rfl

theorem claimAction_countdowns {r : ActionRequest} (h : claimAction env r σ = .ok σ') :
    σ'.countdowns = σ.countdowns ∧ σ'.pins = σ.pins := by
  obtain ⟨claim, j, inst, σ₁, priced, amount, v, e, inst', dest, returns, ha⟩ := claimAction_acted h
  obtain ⟨hd, hp⟩ := ha.performed.countdowns
  rcases prepareAction_eq_ok.1 ha.prepared with ⟨-, hrefresh⟩ | ⟨-, rfl, -⟩
  · obtain ⟨σ₂, claim₂, htotals, -, rfl⟩ := refreshForResubmit_eq_ok hrefresh
    obtain ⟨hd₂, hp₂⟩ := computeClaimTotals_countdowns htotals
    exact ⟨hd.trans hd₂, hp.trans hp₂⟩
  · exact ⟨hd, hp⟩

theorem submitClaim_countdowns {r : Submit} (h : submitClaim env r σ = .ok σ') :
    σ'.countdowns = σ.countdowns ∧ σ'.pins = σ.pins := by
  obtain ⟨claim, priced, packet, inst, v, e, inst', dest, entered, hs⟩ := submitClaim_eq_ok h
  obtain ⟨σ₁, htotals, -, hpacket⟩ := preparePacket_eq_ok hs.prepared
  obtain ⟨hd₁, hp₁⟩ := computeClaimTotals_countdowns htotals
  change packet = _ at hpacket
  have hclaims : packet.claims = σ₁.claims := by
    rw [hpacket]
    rfl
  have hd₂ : entered.countdowns = σ₁.countdowns := by
    rw [hs.store]
    unfold Store.countdowns
    rw [← hclaims]
    refine map_modify_of_eq (fun c => ?_) _ _
    rfl
  have hp₂ : entered.pins = σ₁.pins := by
    rw [hs.store, hpacket]
    rfl
  obtain ⟨hd, hp⟩ := hs.performed.countdowns
  exact ⟨hd.trans (hd₂.trans hd₁), hp.trans (hp₂.trans hp₁)⟩

/-! ## Filing -/

theorem redated_createDraft {actor : ℕ} {kind : Kind} {r : ℕ × Store}
    (h : createDraftClaim env σ actor kind now = .ok r) :
    Redated c σ r.2.countdowns r.2.pins := by
  obtain ⟨staff, rfl⟩ := createDraftClaim_eq_ok h
  have hfiled : Redated c σ (σ.countdowns ++ [(draftClaim kind staff actor now).countdown]) σ.pins :=
    .filed _ rfl fun _ => rfl
  convert hfiled using 1
  · simp [Store.countdowns]
  · rfl

theorem pins_flip {f : CashAdvance → CashAdvance} (hf : ∀ a, (f a).pin = a.pin) :
    (σ.advances.modify k f).map CashAdvance.pin = σ.pins := map_modify_of_eq hf _ _

theorem redated_startLiquidation {r : StartLiquidation} (h : startLiquidation env r σ = .ok σ') :
    Redated c σ σ'.countdowns σ'.pins := by
  simp only [startLiquidation, bind_eq_ok, found_eq_ok, refuse_eq_ok, onConflict_eq_ok,
    flushClaims_eq_ok, pure_eq_ok] at h
  obtain ⟨a, hrow, -, -, actor, -, -, -, -, -, ⟨id, σ₁⟩, hdraft, _, ⟨rfl, -⟩, rfl⟩ := h
  obtain ⟨staff, hr⟩ := createDraftClaim_eq_ok hdraft
  obtain ⟨rfl, rfl⟩ := Prod.mk.inj hr
  have hpin : σ.pins[r.cashAdvanceId]? = some a.pin := by simp [Store.pins, hrow]
  have hbegun := Redated.begun (c := c) r.cashAdvanceId a.pin hpin
  convert hbegun using 1
  · refine (congrArg (List.map _) (modify_length_append _ _ _)).trans ?_
    simp [Store.countdowns, Claim.countdown, draftClaim, CashAdvance.pin]
  · refine pins_flip fun a => ?_
    split_ifs <;> rfl

theorem redated_spawn {r : Spawn} (h : spawnReimbursement env r σ = .ok σ') :
    Redated c σ σ'.countdowns σ'.pins := by
  simp only [spawnReimbursement, bind_eq_ok, onConflict_eq_ok, flushClaims_eq_ok] at h
  obtain ⟨⟨source, advanceId⟩, -, ⟨id, σ₁⟩, hdraft, σ₂, ⟨hσ₂, -⟩, htotals⟩ := h
  obtain ⟨staff, hr⟩ := createDraftClaim_eq_ok hdraft
  obtain ⟨rfl, rfl⟩ := Prod.mk.inj hr
  obtain ⟨hd, hp⟩ := computeClaimTotals_countdowns htotals
  have hp₂ : σ₂.pins = σ.pins := by
    rw [hσ₂]
    rfl
  have hd₂ : σ₂.countdowns = σ.countdowns ++ [{
      kind := .reimbursement
      cashAdvanceId := some advanceId
      liquidationDeadline := none }] := by
    rw [hσ₂]
    refine (congrArg (List.map _) (modify_length_append _ _ _)).trans ?_
    simp [Store.countdowns, Claim.countdown, draftClaim]
  rw [hd, hd₂, hp, hp₂]
  exact .filed _ rfl fun hkind => by cases hkind

/-! ## Advances -/

theorem redated_createCashAdvance {r : CreateAdvance} (hc : c.op = .createAdvance r)
    (h : createCashAdvance c.env r σ = .ok σ') : Redated c σ σ'.countdowns σ'.pins := by
  simp only [createCashAdvance, bind_eq_ok, onConflict_eq_ok, flushAdvances_eq_ok] at h
  obtain ⟨_, -, _, -, ⟨deadline, basis⟩, hresolve, rfl, -⟩ := h
  have hopened := Redated.opened (c := c) (σ := σ) ⟨r.dateReturn, deadline, basis⟩ (by
    rw [Pin.ResolvedBy, Call.today, hc]
    exact hresolve)
  convert hopened using 1
  · rfl
  · simp [Store.pins, CashAdvance.pin]

/-- An edit of an advance keeps its pin, or moves its return date and resolves the deadline anew. -/
theorem updatedAdvance_pin {r : UpdateAdvance} {a a' : CashAdvance} (hc : c.op = .updateAdvance r)
    (h : updatedAdvance c.env r a = .ok a') :
    a'.pin = a.pin ∨ (a'.pin.dateReturn ≠ a.pin.dateReturn ∧ a'.pin.ResolvedBy c) := by
  simp only [updatedAdvance, bind_eq_ok, refuse_eq_ok, pure_eq_ok] at h
  obtain ⟨-, -, amount, -, -, -, ⟨deadline, basis, status⟩, hclock, rfl⟩ := h
  simp only [UpdateAdvance.clock] at hclock
  by_cases hsame : r.dateReturn.getD a.dateReturn = a.dateReturn
  · rw [if_pos hsame] at hclock
    obtain ⟨rfl, rfl, rfl⟩ := Except.ok.inj hclock
    left
    simp [CashAdvance.pin, hsame]
  · rw [if_neg hsame] at hclock
    simp only [bind_eq_ok, pure_eq_ok] at hclock
    obtain ⟨⟨_, _⟩, hresolve, heq⟩ := hclock
    obtain ⟨rfl, hrest⟩ := Prod.mk.inj heq
    obtain ⟨rfl, -⟩ := Prod.mk.inj hrest
    refine .inr ⟨hsame, ?_⟩
    rw [Pin.ResolvedBy, Call.today, hc]
    exact hresolve

theorem countdowns_remirror (deadline : Option Day) :
    (remirrorDeadline σ k deadline).countdowns = σ.countdowns.map (.remirror k deadline) := by
  simp only [Store.countdowns, remirrorDeadline, List.map_map]
  refine List.map_congr_left fun c _ => ?_
  rw [Function.comp_apply, Function.comp_apply, Countdown.remirror]
  have hlink : (c.countdown.cashAdvanceId = some k ∧ c.countdown.kind = .liquidation) ↔
      (c.cashAdvanceId = some k ∧ c.kind = .liquidation) := Iff.rfl
  by_cases h : c.cashAdvanceId = some k ∧ c.kind = .liquidation
  · rw [if_pos h, if_pos (hlink.2 h)]
    rfl
  · rw [if_neg h, if_neg (hlink.not.2 h)]

theorem redated_updateCashAdvance {r : UpdateAdvance} (hc : c.op = .updateAdvance r)
    (h : updateCashAdvance c.env r σ = .ok σ') : Redated c σ σ'.countdowns σ'.pins := by
  simp only [updateCashAdvance, bind_eq_ok, found_eq_ok, flushAdvances_eq_ok] at h
  obtain ⟨a, hrow, a', hedit, _, ⟨rfl, -⟩, h⟩ := h
  have hold : σ.pins[r.cashAdvanceId]? = some a.pin := by simp [Store.pins, hrow]
  have hpins : (σ.setAdvance r.cashAdvanceId fun _ => a').pins =
      σ.pins.modify r.cashAdvanceId fun _ => a'.pin := by
    refine map_modify (fun _ => ?_) _ _
    rfl
  rcases updatedAdvance_pin hc hedit with hkept | ⟨hdate, hresolved⟩
  · have hsame : a'.deadlineDate = a.deadlineDate := congrArg Pin.deadlineDate hkept
    rw [if_pos hsame] at h
    obtain rfl := pure_eq_ok.1 h
    refine redated_of_eq rfl (hpins.trans ?_)
    rw [hkept, modify_const_self hold]
  · split_ifs at h with hsame
    · obtain rfl := pure_eq_ok.1 h
      rw [hpins]
      exact .moved _ a.pin a'.pin hold hdate hresolved hsame
    · obtain rfl := pure_eq_ok.1 h
      rw [countdowns_remirror]
      change Redated c σ _ (σ.setAdvance r.cashAdvanceId fun _ => a').pins
      rw [hpins]
      exact .mirrored _ a.pin a'.pin hold hdate hresolved

/-! ## Every call -/

/-- Every returning call does one of these to the deadlines. -/
theorem Call.step_redated (h : c.step σ = .ok σ') : Redated c σ σ'.countdowns σ'.pins := by
  obtain ⟨env, op⟩ := c
  cases op with
  | createDraft actor kind now =>
      obtain ⟨r, hr, rfl⟩ := map_eq_ok.1 h
      exact redated_createDraft hr
  | editDraft r =>
      simp only [Call.step, updateDraftFields, bind_eq_ok, pure_eq_ok] at h
      obtain ⟨claim, -, _, -, _, -, _, -, rfl⟩ := h
      refine redated_of_eq (map_modify_of_eq (fun c => ?_) _ _) rfl
      rfl
  | replaceLegs r =>
      simp only [Call.step, replaceLegs, bind_eq_ok, pure_eq_ok] at h
      obtain ⟨claim, -, legs, -, rfl⟩ := h
      refine redated_of_eq (map_modify_of_eq (fun c => ?_) _ _) rfl
      rfl
  | recomputeTotals claimId actor =>
      simp only [Call.step, recomputeTotals, bind_eq_ok] at h
      obtain ⟨claim, -, htotals⟩ := h
      obtain ⟨hd, hp⟩ := computeClaimTotals_countdowns htotals
      exact redated_of_eq hd hp
  | attachEvidence claimId catalogId actor =>
      simp only [Call.step, attachEvidence, bind_eq_ok, pure_eq_ok] at h
      obtain ⟨_, -, _, -, _, -, rfl⟩ := h
      exact redated_of_eq rfl rfl
  | detachEvidence claimId catalogId actor =>
      simp only [Call.step, detachEvidence, bind_eq_ok, pure_eq_ok] at h
      obtain ⟨_, -, _, -, rfl⟩ := h
      exact redated_of_eq rfl rfl
  | markGenerated claimId code =>
      simp only [Call.step, markGenerated, bind_eq_ok, pure_eq_ok] at h
      obtain ⟨_, -, _, -, _, -, rfl⟩ := h
      exact redated_of_eq rfl rfl
  | cancelDraft r =>
      simp only [Call.step, cancelDraftClaim, bind_eq_ok, flushClaims_eq_ok] at h
      obtain ⟨claim, -, -, -, -, -, -, -, -, -, rfl, -⟩ := h
      refine redated_of_eq (map_modify_of_eq (fun c => ?_) _ _) rfl
      rfl
  | submit r =>
      obtain ⟨hd, hp⟩ := submitClaim_countdowns h
      exact redated_of_eq hd hp
  | act r =>
      obtain ⟨hd, hp⟩ := claimAction_countdowns h
      exact redated_of_eq hd hp
  | createAdvance r => exact redated_createCashAdvance rfl h
  | updateAdvance r => exact redated_updateCashAdvance rfl h
  | markOverdue advanceId =>
      obtain rfl := Except.ok.inj h
      refine redated_of_eq rfl (pins_flip fun a => ?_)
      split_ifs <;> rfl
  | startLiquidation r => exact redated_startLiquidation h
  | settle r =>
      obtain ⟨k, t, -, hact⟩ := recordSettlement_eq_ok.1 h
      obtain ⟨hd, hp⟩ := claimAction_countdowns hact
      refine redated_of_eq hd (hp.trans (pins_flip fun a => ?_))
      rfl
  | payout r =>
      obtain ⟨reference, day, σ₁, hclaims, -, -, hadv, hact⟩ := recordPayout_eq_ok h
      obtain ⟨hd, hp⟩ := claimAction_countdowns hact
      refine redated_of_eq (hd.trans ?_) (hp.trans (congrArg (List.map CashAdvance.pin) hadv))
      unfold Store.countdowns
      rw [hclaims]
      refine map_modify_of_eq (fun c => ?_) _ _
      rfl
  | relay r =>
      simp only [Call.step, recordExternalEvent, bind_eq_ok, pure_eq_ok] at h
      obtain ⟨_, -, _, -, claim, -, _, -, rfl⟩ := h
      exact redated_of_eq rfl rfl
  | spawn r => exact redated_spawn h
  | sweep now instanceId picked =>
      obtain rfl := Except.ok.inj h
      exact redated_of_eq rfl rfl
  | remind instanceId stepId level revisionNo =>
      obtain rfl := Except.ok.inj h
      exact redated_of_eq rfl rfl

/-! ## The pin -/

/-- The call after `done` wrote the advance's return date and resolved its deadline, and no call of
`rest` moved either. -/
structure PinnedBy (k : ℕ) (p : Pin) (done : List Call) (c : Call) (rest : List Call) : Prop where
  moved : ((runStore done).pins[k]?).map (·.dateReturn) ≠ some p.dateReturn
  resolved : p.ResolvedBy c
  kept : ∀ n, (runStore (done ++ c :: rest.take n)).pins[k]? = some p

/-- A pin after a call is the one before it, or was written by the call with its return date. -/
theorem Redated.pin {p : Pin} {countdowns : List Countdown} {pins : List Pin}
    (h : Redated c σ countdowns pins) (hp : pins[k]? = some p) :
    σ.pins[k]? = some p ∨
      ((σ.pins[k]?).map (·.dateReturn) ≠ some p.dateReturn ∧ p.ResolvedBy c) := by
  have hwritten : ∀ {n : ℕ} {old new : Pin}, σ.pins[n]? = some old →
      new.dateReturn ≠ old.dateReturn → new.ResolvedBy c →
      (σ.pins.modify n fun _ => new)[k]? = some p → σ.pins[k]? = some p ∨
        ((σ.pins[k]?).map (·.dateReturn) ≠ some p.dateReturn ∧ p.ResolvedBy c) := by
    intro n old new hrow hdate hresolved hp
    rcases getElem?_modify_eq_some hp with ⟨rfl, _, hrow', rfl⟩ | ⟨-, hold⟩
    · right
      rw [hrow, Option.map_some]
      exact ⟨fun heq => hdate (Option.some.inj heq).symm, hresolved⟩
    · exact .inl hold
  cases h with
  | kept => exact .inl hp
  | filed d hnone hlink => exact .inl hp
  | begun n q hrow => exact .inl hp
  | opened q hq =>
      rcases getElem?_concat_eq_some hp with hold | ⟨rfl, rfl⟩
      · exact .inl hold
      · right
        rw [List.getElem?_eq_none le_rfl]
        exact ⟨by simp, hq⟩
  | moved n q q' hrow hdate hq hsame => exact hwritten hrow hdate hq hp
  | mirrored n q q' hrow hdate hq => exact hwritten hrow hdate hq hp

theorem exists_pinnedBy (calls : List Call) {p : Pin} (hp : (runStore calls).pins[k]? = some p) :
    ∃ done c rest, calls = done ++ c :: rest ∧ PinnedBy k p done c rest := by
  induction calls using List.reverseRecOn with
  | nil => simp [runStore, run_nil, Store.pins] at hp
  | append_singleton calls c ih =>
      have hnext : runStore (calls ++ [c]) = commit Call.step (runStore calls) c := by
        rw [runStore, run_append, run_cons, run_nil]
        rfl
      have hstep : (runStore calls).pins[k]? = some p ∨
          (((runStore calls).pins[k]?).map (·.dateReturn) ≠ some p.dateReturn ∧
            p.ResolvedBy c) := by
        rw [hnext] at hp
        unfold commit at hp
        cases hc : c.step (runStore calls) with
        | error e =>
            rw [hc] at hp
            exact .inl hp
        | ok σ' =>
            rw [hc] at hp
            exact (Call.step_redated hc).pin hp
      rcases hstep with hold | ⟨hmoved, hresolved⟩
      · obtain ⟨done, d, rest, rfl, hpinned⟩ := ih hold
        refine ⟨done, d, rest ++ [c], by simp, hpinned.moved, hpinned.resolved, fun n => ?_⟩
        rcases Nat.lt_or_ge rest.length n with hn | hn
        · have hall : (rest ++ [c]).take n = rest ++ [c] :=
            List.take_of_length_le (by simpa using hn)
          rw [hall]
          simpa using hp
        · rw [List.take_append_of_le_length hn]
          exact hpinned.kept n
      · refine ⟨calls, c, [], rfl, hmoved, hresolved, fun n => ?_⟩
        simpa using hp

/-! ## The mirror -/

/-- A liquidation shows the deadline of its advance, and a reimbursement shows none. -/
def Countdown.Shows (pins : List Pin) (d : Countdown) : Prop :=
  match d.kind with
  | .liquidation => ∀ k, d.cashAdvanceId = some k →
      ∃ p, pins[k]? = some p ∧ d.liquidationDeadline = p.deadlineDate
  | .reimbursement => d.liquidationDeadline = none

def MirrorsDeadlines (σ : Store) : Prop := ∀ d ∈ σ.countdowns, d.Shows σ.pins

/-- Pins whose deadlines stay, where they exist, are shown as before. -/
theorem Countdown.Shows.mono {d : Countdown} {pins pins' : List Pin} (h : d.Shows pins)
    (hpins : ∀ (k : ℕ) (p : Pin), d.kind = .liquidation → d.cashAdvanceId = some k →
      pins[k]? = some p → ∃ p', pins'[k]? = some p' ∧ p'.deadlineDate = p.deadlineDate) :
    d.Shows pins' := by
  unfold Countdown.Shows at h ⊢
  cases hkind : d.kind with
  | liquidation =>
      simp only [hkind] at h ⊢
      intro k hk
      obtain ⟨p, hp, hshown⟩ := h k hk
      obtain ⟨p', hp', hsame⟩ := hpins k p hkind hk hp
      exact ⟨p', hp', hshown.trans hsame.symm⟩
  | reimbursement =>
      simp only [hkind] at h ⊢
      exact h

theorem MirrorsDeadlines.step (h : MirrorsDeadlines σ) (hok : c.step σ = .ok σ') :
    MirrorsDeadlines σ' := by
  have hredated := Call.step_redated hok
  unfold MirrorsDeadlines at h ⊢
  generalize σ'.countdowns = countdowns at hredated ⊢
  generalize σ'.pins = pins at hredated ⊢
  cases hredated with
  | kept => exact h
  | filed d hnone hlink =>
      intro d' hd'
      rcases List.mem_append.1 hd' with hold | hnew
      · exact h d' hold
      · obtain rfl := List.mem_singleton.1 hnew
        unfold Countdown.Shows
        cases hkind : d'.kind with
        | liquidation => simp [hlink hkind]
        | reimbursement => exact hnone
  | begun k p hrow =>
      intro d hd
      rcases List.mem_append.1 hd with hold | hnew
      · exact h d hold
      · obtain rfl := List.mem_singleton.1 hnew
        intro n hn
        obtain rfl := Option.some.inj hn
        exact ⟨p, hrow, rfl⟩
  | opened p hp =>
      intro d hd
      refine (h d hd).mono fun k q _ _ hq => ⟨q, ?_, rfl⟩
      rw [List.getElem?_append_left (List.getElem?_eq_some_iff.1 hq).1, hq]
  | moved k p p' hrow hdate hp hsame =>
      intro d hd
      refine (h d hd).mono fun n q _ _ hq => ?_
      by_cases hn : k = n
      · subst hn
        obtain rfl := Option.some.inj (hrow.symm.trans hq)
        exact ⟨p', getElem?_modify_self _ hrow, hsame⟩
      · exact ⟨q, (List.getElem?_modify_ne _ _ hn).trans hq, rfl⟩
  | mirrored k p p' hrow hdate hp =>
      intro d' hd'
      obtain ⟨d, hd, rfl⟩ := List.mem_map.1 hd'
      unfold Countdown.remirror
      split_ifs with hlink
      · -- the mirror shows the moved deadline
        unfold Countdown.Shows
        simp only [hlink.2]
        intro n hn
        obtain rfl : k = n := Option.some.inj (hlink.1.symm.trans hn)
        exact ⟨p', getElem?_modify_self _ hrow, rfl⟩
      · refine (h d hd).mono fun n q hkind hn hq => ⟨q, ?_, rfl⟩
        have hne : k ≠ n := fun heq => hlink ⟨heq ▸ hn, hkind⟩
        exact (List.getElem?_modify_ne _ _ hne).trans hq

theorem runStore_mirrorsDeadlines (calls : List Call) : MirrorsDeadlines (runStore calls) := by
  refine run_invariant (P := fun _ _ => True) (fun σ c σ' _ h hok => h.step hok) calls _ ?_
    (conforms_true _ _)
  intro d hd
  simp [Store.countdowns] at hd

/-- In every run, an advance's deadline is the one its return date resolved to in the call that last
moved that date, with the config rows, the holidays and the day of that call; each liquidation
linked to an advance, whatever its status, shows the advance's deadline, and no reimbursement shows
one. -/
theorem deadlines_pinned_and_mirrored (calls : List Call) :
    (∀ (k : ℕ) (a : CashAdvance), (runStore calls).advances[k]? = some a →
      ∃ done c rest, calls = done ++ c :: rest ∧ PinnedBy k a.pin done c rest) ∧
    ∀ (i : ℕ) (claim : Claim), (runStore calls).claims[i]? = some claim →
      (claim.kind = .liquidation → ∀ k, claim.cashAdvanceId = some k →
        ∃ a, (runStore calls).advances[k]? = some a ∧ claim.liquidationDeadline = a.deadlineDate) ∧
      (claim.kind = .reimbursement → claim.liquidationDeadline = none) := by
  constructor
  · intro k a ha
    exact exists_pinnedBy calls (by simp [Store.pins, ha])
  · intro i claim hclaim
    have hshows := runStore_mirrorsDeadlines calls claim.countdown
      (List.mem_map_of_mem (List.mem_of_getElem? hclaim))
    unfold Countdown.Shows at hshows
    constructor
    · intro hkind k hk
      have hliq : claim.countdown.kind = .liquidation := hkind
      simp only [hliq] at hshows
      obtain ⟨p, hp, hshown⟩ := hshows k hk
      obtain ⟨a, ha, rfl⟩ : ∃ a, (runStore calls).advances[k]? = some a ∧ a.pin = p := by
        simpa [Store.pins] using hp
      exact ⟨a, ha, hshown⟩
    · intro hkind
      have hreim : claim.countdown.kind = .reimbursement := hkind
      simp only [hreim] at hshows
      exact hshows

end

end OfficeConnect.Reimbursement
