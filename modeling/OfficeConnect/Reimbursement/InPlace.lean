import OfficeConnect.Reimbursement.Standing

/-!
# Replays in place

A replayed action mirrors an old event onto the claim.  As long as that event led to the status the
claim shows, the claim keeps showing where its instance stands, and every change of a status is an
edge of its chain, taken under its own verb.
-/

namespace OfficeConnect.Reimbursement

open Lib Workflow

/-- A transition of the chain leads from one status to the other under the action. -/
def Edge (kind : Kind) (action : Action) (before after : Status) : Prop :=
  ∃ t ∈ (chain kind).transitions, t.action = action ∧ ∃ s ∈ state? t.fromStateId,
    ∃ s' ∈ state? t.toStateId, s.code = before ∧ s'.code = after

instance (kind : Kind) (action : Action) (before after : Status) :
    Decidable (Edge kind action before after) :=
  inferInstanceAs (Decidable (∃ t ∈ (chain kind).transitions, t.action = action ∧
    ∃ s ∈ state? t.fromStateId, ∃ s' ∈ state? t.toStateId, s.code = before ∧ s'.code = after))

/-- A claim action whose key labels an event replays one that led to the claim's own status. -/
def ReplaysInPlace (σ : Store) (c : Call) : Prop :=
  ∀ r ∈ c.action?, ∀ claim ∈ σ.claims[r.claimId]?, ∀ inst ∈ σ.instanceOf claim,
    ∀ e ∈ replayed inst (r.key inst), ∀ dest ∈ (eventState e).toOption, dest.code = claim.status

instance (σ : Store) (c : Call) : Decidable (ReplaysInPlace σ c) :=
  inferInstanceAs (Decidable (∀ r ∈ c.action?, ∀ claim ∈ σ.claims[r.claimId]?,
    ∀ inst ∈ σ.instanceOf claim, ∀ e ∈ replayed inst (r.key inst),
      ∀ dest ∈ (eventState e).toOption, dest.code = claim.status))

/-- The verb under which a call may move a claim. -/
def Call.Takes (c : Call) (i : ℕ) (action : Action) : Prop :=
  action = .cancel ∨ (∃ r, c.op = .submit r ∧ r.claimId = i ∧ action = .submit) ∨
    ∃ r, c.action? = some r ∧ r.claimId = i ∧ r.action = action

/-- The claim is in its place and shows where its instance stands. -/
structure Shown (f : CaseFile) : Prop where
  standing : Standing f
  current : ∀ inst, f.inst = some inst →
    ∃ s, state? inst.currentStateId = some s ∧ s.code = f.spine.status

/-! ## The edges of the chains -/

/-- No edge leaves a terminal status. -/
theorem no_edge_of_terminal {kind : Kind} {action : Action} {before after : Status}
    (h : Edge kind action before after) : before ∉ (vocabulary kind).terminal := by
  have hall : ∀ k, ∀ t ∈ (chain k).transitions, ∀ s ∈ state? t.fromStateId,
      s.code ∉ (vocabulary k).terminal := by
    intro k
    cases k <;> decide
  obtain ⟨t, ht, -, s, hs, -, -, rfl, -⟩ := h
  exact hall kind t ht s hs

/-- The money terminal of a kind. -/
def Kind.closing : Kind → Status
  | reimbursement => .paidClosed
  | liquidation => .settled

/-- Only an approval out of FMS closes a claim, and it does nothing else. -/
theorem edge_closing {kind : Kind} {action : Action} {before after : Status}
    (h : Edge kind action before after) :
    after = kind.closing ↔ action = .approve ∧ before = .handedToFms := by
  have hall : ∀ k, ∀ t ∈ (chain k).transitions, ∀ s ∈ state? t.fromStateId,
      ∀ s' ∈ state? t.toStateId, s'.code = k.closing ↔ t.action = .approve ∧
        s.code = .handedToFms := by
    intro k
    cases k <;> decide
  obtain ⟨t, ht, rfl, s, hs, s', hs', rfl, rfl⟩ := h
  exact hall kind t ht s hs s' hs'

/-! ## One step -/

section

variable {c : Call} {σ σ' : Store} {i : ℕ} {f f' : CaseFile}

/-- The engine replays, or takes an edge from where the instance stands to where it shows. -/
theorem Engaged.edge {kind : Kind} {status : Status} {inst inst' : Instance} {amount : Option ℤ}
    {q : Request} {v : Published Status} {e : Event} {dest s : State Status}
    (h : Engaged c inst amount q v e inst' dest) (due : Time) (hp : Placed kind status inst)
    (hs : state? inst.currentStateId = some s) :
    (replayed inst q.idempotencyKey = some e ∧ inst' = { inst with amount := amount }) ∨
      (replayed inst q.idempotencyKey = none ∧
        state? (stamped kind dest due inst').currentStateId = some dest ∧
        Edge kind q.action s.code dest.code) := by
  rcases h.cases hp with hreplay | ⟨current, t, out, entered, hfired, -, hdest⟩
  · exact .inl hreplay
  · have ho := (quiet_setAmount inst amount).onLadder hp.onLadder
    obtain ⟨hmem, hfrom, haction⟩ := hfired.transition
    have htarget := state?_chain kind hdest
    refine .inr ⟨hfired.fresh, ?_, t, hmem, haction, s, ?_, dest, ?_, rfl, rfl⟩
    · rw [(quiet_stamped kind dest due inst').state, hfired.result]
      exact htarget
    · rw [hfrom, hfired.current_id]
      exact hs
    · rw [← hfired.moves (ladder_chain kind) ho]
      exact htarget

/-- Nothing is replayed on a new instance. -/
theorem replayed_newInstance {v : Version Status} (initial : State Status) (start : Start)
    (now : Time) (key : Option String) : replayed (newInstance v initial start now) key = none := by
  by_contra hne
  obtain ⟨e, he⟩ := Option.ne_none_iff_exists'.1 hne
  obtain ⟨hlogged, hkey⟩ := replayed_mem he
  rw [List.mem_singleton.1 hlogged] at hkey
  rw [replayed, if_pos (.inl hkey.symm)] at he
  cases he

/-- The first action on a new instance takes an edge out of the draft. -/
theorem Engaged.submits {kind : Kind} {initial dest : State Status} {start : Start} {now : Time}
    {inst' : Instance} {amount : Option ℤ} {q : Request} {v : Published Status} {e : Event}
    (h : Engaged c (newInstance (chain kind).toVersion initial start now) amount q v e inst' dest)
    (due : Time) (hinitial : initialState (chain kind).toVersion = some initial) :
    state? (stamped kind dest due inst').currentStateId = some dest ∧
      Edge kind q.action .draft dest.code := by
  have hstate : state? initial.id = some initial :=
    state?_chain kind ((chain kind).state?_of_mem (initialState_mem hinitial))
  have hcode : initial.code = .draft := by
    have hall : ∀ k, ∀ s ∈ initialState (chain k).toVersion, s.code = .draft := by
      intro k
      cases k <;> decide
    exact hall kind initial hinitial
  rcases h.edge due (placed_newInstance start now hinitial) hstate with
    ⟨hreplay, -⟩ | ⟨-, hcurrent, hedge⟩
  · rw [replayed_newInstance] at hreplay
    cases hreplay
  · rw [hcode] at hedge
    exact ⟨hcurrent, hedge⟩

/-- Replays in place keep the claim in step, and its status follows the edges of its chain. -/
theorem FileStep.in_place (h : FileStep c i f f') (hf : σ.file? i = some f)
    (hc : ReplaysInPlace σ c) (hshown : Shown f) :
    Shown f' ∧ (f'.spine.status = f.spine.status ∨
      ∃ action, c.Takes i action ∧ Edge f.spine.kind action f.spine.status f'.spine.status) := by
  have hstanding := h.standing hshown.standing
  cases h with
  | same => exact ⟨hshown, .inl rfl⟩
  | quiet inst inst' hinst hquiet hdated =>
      refine ⟨⟨hstanding, fun x hx => ?_⟩, .inl rfl⟩
      obtain rfl := Option.some.inj hx
      rw [hquiet.state]
      exact hshown.current inst hinst
  | dropped rows hlink hrows =>
      obtain ⟨claim, -, hspine, hinst⟩ := file_claim hf
      have hnone : f.inst = none := by
        have hunlinked : claim.workflowInstanceId = none :=
          (congrArg Spine.link hspine).trans hlink
        rw [← hinst, Store.instanceOf, hunlinked]
        rfl
      refine ⟨⟨hstanding, fun x hx => ?_⟩, ?_⟩
      · rw [hnone] at hx
        cases hx
      · rcases hshown.standing.unlinked hlink with hdraft | hcancelled
        · refine .inr ⟨.cancel, .inl rfl, ?_⟩
          have hedge : ∀ k, Edge k .cancel .draft .cancelled := by
            intro k
            cases k <;> decide
          rw [hdraft]
          exact hedge f.spine.kind
        · exact .inl hcancelled.symm
  | submitted r j initial start now due inst v e inst' dest rows hr hi hlink hlive hinitial hinst
      hrun hrows =>
      have hdraft := (hshown.standing.unlinked hlink).resolve_right hlive
      rw [hinst] at hrun
      obtain ⟨hcurrent, hedge⟩ := hrun.submits due hinitial
      refine ⟨⟨hstanding, fun x hx => ?_⟩, .inr ⟨.submit, .inr (.inl ⟨r, hr, hi, rfl⟩), ?_⟩⟩
      · obtain rfl := Option.some.inj hx
        exact ⟨dest, hcurrent, rfl⟩
      · rw [hdraft]
        exact hedge
  | acted r inst amount due v e inst' dest rows hr hi hlink hinst hrun hrows =>
      obtain ⟨inst₀, hinst₀, hp⟩ := hshown.standing.linked hlink
      obtain rfl := Option.some.inj (hinst.symm.trans hinst₀)
      obtain ⟨s, hs, hcode⟩ := hshown.current inst hinst
      rcases hrun.edge due hp hs with ⟨hreplay, rfl⟩ | ⟨-, hcurrent, hedge⟩
      · obtain ⟨claim, hclaim, hspine, hinstance⟩ := file_claim hf
        rw [← hi] at hclaim
        have hsame : dest.code = f.spine.status := by
          rw [← hspine]
          exact hc r hr claim hclaim inst (hinstance.trans hinst) e hreplay dest
            (by rw [hrun.target]; rfl)
        refine ⟨⟨hstanding, fun x hx => ?_⟩, .inl hsame⟩
        obtain rfl := Option.some.inj hx
        rw [(quiet_stamped f.spine.kind dest due _).state]
        exact ⟨s, hs, hcode.trans hsame.symm⟩
      · refine ⟨⟨hstanding, fun x hx => ?_⟩, .inr ⟨r.action, .inr (.inr ⟨r, hr, hi, rfl⟩), ?_⟩⟩
        · obtain rfl := Option.some.inj hx
          exact ⟨dest, hcurrent, rfl⟩
        · rw [← hcode]
          exact hedge

theorem Opened.shown {d : Docket} (h : Opened c d i f) : Shown f :=
  ⟨h.standing, fun inst hinst => by rw [h.inst] at hinst; cases hinst⟩

theorem shown_step (hreg : Regular σ) (hshown : ∀ i f, σ.file? i = some f → Shown f)
    (hc : ReplaysInPlace σ c) (hstep : c.step σ = .ok σ') (i : ℕ) (f' : CaseFile)
    (hf' : σ'.file? i = some f') : Shown f' := by
  rcases hreg.file_step hstep hf' with ⟨f, hf, hfs⟩ | ⟨-, hopened⟩
  · exact (hfs.in_place hf hc (hshown i f hf)).1
  · exact hopened.shown

theorem shown_empty (i : ℕ) (f : CaseFile) (hf : Store.file? {} i = some f) : Shown f := by
  simp [Store.file?, Docket.file?, Store.docket] at hf

/-- A call that acts on a claim runs the action on a store with the same docket. -/
theorem Call.step_action {r : ActionRequest} (hr : c.action? = some r) (h : c.step σ = .ok σ') :
    ∃ σ₀, claimAction c.env r σ₀ = .ok σ' ∧ σ₀.docket = σ.docket := by
  obtain ⟨env, op⟩ := c
  cases op with
  | act q =>
      obtain rfl := Option.some.inj hr
      exact ⟨σ, h, rfl⟩
  | settle q =>
      obtain rfl := Option.some.inj hr
      obtain ⟨k, t, -, hact⟩ := recordSettlement_eq_ok.1 h
      exact ⟨_, hact, rfl⟩
  | payout q =>
      obtain rfl := Option.some.inj hr
      obtain ⟨reference, day, σ₁, hclaims, hinstances, hhistory, -, hact⟩ := recordPayout_eq_ok h
      refine ⟨σ₁, hact, ?_⟩
      have hspines : σ₁.claims.map Claim.spine = σ.claims.map Claim.spine := by
        rw [hclaims]
        refine map_modify_of_eq (fun c => ?_) _ _
        rfl
      simp only [Store.docket, hspines, hinstances, hhistory]
  | _ => cases hr

/-- Settlements and payouts approve, so a resubmission is a claim action of its own. -/
theorem op_of_resubmit {r : ActionRequest} (hr : c.action? = some r)
    (hverb : r.action = .resubmit) : c.op = .act r := by
  obtain ⟨env, op⟩ := c
  cases op with
  | act q =>
      obtain rfl := Option.some.inj hr
      rfl
  | settle q =>
      obtain rfl := Option.some.inj hr
      cases hverb
  | payout q =>
      obtain rfl := Option.some.inj hr
      cases hverb
  | _ => cases hr

/-- What a call does to one claim: an edge of its chain, or nothing; and a new claim is a draft. -/
theorem claim_step (hreg : Regular σ) (hshown : ∀ i f, σ.file? i = some f → Shown f)
    (hc : ReplaysInPlace σ c) (hstep : c.step σ = .ok σ') {claim' : Claim}
    (hclaim' : σ'.claims[i]? = some claim') :
    (∃ claim, σ.claims[i]? = some claim ∧ claim'.kind = claim.kind ∧
      claim'.cashAdvanceId = claim.cashAdvanceId ∧ (claim'.status = claim.status ∨
        ∃ action, c.Takes i action ∧ Edge claim.kind action claim.status claim'.status)) ∨
      (σ.claims[i]? = none ∧ claim'.status = .draft) := by
  rcases hreg.file_step hstep (exists_file hclaim') with ⟨f, hf, hfs⟩ | ⟨hnone, hopened⟩
  · obtain ⟨claim, hclaim, hspine, -⟩ := file_claim hf
    obtain ⟨hkind, hadvance, -⟩ := hfs.origin_eq
    have hmoved := (hfs.in_place hf hc (hshown i f hf)).2
    rw [← hspine] at hkind hadvance hmoved
    exact .inl ⟨claim, hclaim, hkind, hadvance, hmoved⟩
  · exact .inr ⟨claims_eq_none hnone, hopened.status⟩

end

/-! ## One claim action -/

section

variable {env : Env} {σ σ₁ σ' : Store} {r : ActionRequest} {claim priced : Claim} {j : ℕ}
  {inst inst' : Instance} {amount : Option ℤ} {v : Published Status} {e : Event}
  {dest : State Status} {returns : List ReturnEvent}

/-- An action under a fresh key takes an edge from the status the claim shows. -/
theorem Acted.edge (h : Acted env r σ claim j inst σ₁ priced amount v e inst' dest returns σ')
    {f : CaseFile} (hf : σ.file? r.claimId = some f) (hshown : Shown f)
    (hfresh : replayed inst (r.key inst) = none) :
    Edge claim.kind r.action claim.status dest.code := by
  obtain ⟨claim', hclaim', hspine, hinstance⟩ := file_claim hf
  obtain rfl : claim = claim' := Option.some.inj (h.row.symm.trans hclaim')
  have hinst : f.inst = some inst := hinstance.symm.trans h.instanceOf
  have hlink : f.spine.link ≠ none := by
    rw [← hspine]
    simp [Claim.spine, h.link]
  obtain ⟨inst₀, hinst₀, hp⟩ := hshown.standing.linked hlink
  obtain rfl := Option.some.inj (hinst.symm.trans hinst₀)
  obtain ⟨s, hs, hcode⟩ := hshown.current inst hinst
  rw [← hspine] at hp hcode
  have hengaged := Acted.engaged (c := ⟨env, .act r⟩) h
  rcases hengaged.edge 0 hp hs with ⟨hreplay, -⟩ | ⟨-, -, hedge⟩
  · change replayed inst (r.key inst) = some e at hreplay
    rw [hfresh] at hreplay
    cases hreplay
  · rw [hcode] at hedge
    exact hedge

end

end OfficeConnect.Reimbursement
