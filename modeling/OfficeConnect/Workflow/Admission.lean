import OfficeConnect.Workflow.Ladder
import OfficeConnect.Workflow.Offer

/-!
# When a ladder takes an action

On a ladder the gate an instance stands in has its one slot open and nobody has signed it, so a
routed call with a new key is taken exactly when the actor holds the permission and, for an approval
of a gate that keeps its maker away, is not the maker.
-/

namespace OfficeConnect.Workflow

open Lib

variable {κ : Type} {rank : ℕ → ℕ} {dir : Directory} {inst : Instance} {r : Request}
  {current : State κ} {t : Transition}

/-- A step that asks for a comment was given one. -/
theorem Fired.commented {v : Version κ} {inst' inst'' : Instance} {out : Outcome}
    {entered : List Step} {e : Event} (h : Fired dir v inst r current t out entered inst')
    (hexec : executeAction dir v inst r = .ok (e, inst'')) (hreq : t.requiresComment = true) :
    ¬ blank r.comment := by
  intro hblank
  rcases executeAction_eq_ok.1 hexec with ⟨hreplay, -⟩ | ⟨-, current', t', out', hroute, -⟩
  · rw [h.fresh] at hreplay
    cases hreplay
  · obtain ⟨-, hstate, -, hsel, hnot⟩ := route_eq_ok.1 hroute
    obtain rfl := Option.some.inj (h.state.symm.trans hstate)
    obtain rfl := Option.some.inj (h.selected.symm.trans hsel)
    exact hnot ⟨.inl hreq, hblank⟩

/-- What the branch of an action asks beside the route: the authority and, for an approval, an open
gate and the maker rule. -/
structure Admitted (dir : Directory) (v : Version κ) (inst : Instance) (r : Request)
    (current : State κ) (t : Transition) : Prop where
  authority : (executedAuthority dir v inst current r.actorUserId (r.now.getD dir.utcNow)
    t).authorized = true
  gate : r.action = .approve → current.isApprovalGate = true
  maker : r.action = .approve →
    ¬ (current.enforceSegregation ∧ inst.originatorUserId = some r.actorUserId)

theorem OnLadder.checkSegregation_eq {v : Version κ} (ho : OnLadder v rank inst)
    (hstate : v.state? inst.currentStateId = some current)
    (hmaker : ¬ (current.enforceSegregation ∧ inst.originatorUserId = some r.actorUserId)) :
    checkSegregation inst current (inst.gateSteps current.id inst.revisionNo) r.actorUserId =
      .ok () := by
  have hnobody : doneActors (inst.gateSteps current.id inst.revisionNo) = [] := by
    rw [doneActors_gateSteps, Version.state?_id hstate, ho.unsigned]
    rfl
  unfold checkSegregation
  cases horig : inst.originatorUserId with
  | none => rfl
  | some maker =>
      by_cases henf : current.enforceSegregation
      · have hne : maker ≠ r.actorUserId := by
          rintro rfl
          exact hmaker ⟨henf, horig⟩
        simp [henf, hnobody, assertSegregation, refuse, hne]
      · simp [henf]

/-- On a ladder the branch of an admitted action decides. -/
theorem OnLadder.decides [ToString κ] {v : Published κ} (ho : OnLadder v.toVersion rank inst)
    (hstate : v.state? inst.currentStateId = some current) (hact : t.action = r.action)
    (h : Admitted dir v.toVersion inst r current t) :
    ∃ out, decideAction dir v.toVersion inst current t r (r.now.getD dir.utcNow) = .ok out ∧
      (out.newStateId = t.toStateId ∨ out.newStateId = current.id) := by
  by_cases happ : r.action = .approve
  · have hopen : 0 < openSlots current.id inst.revisionNo inst.steps := by
      rw [ho.slots current hstate, if_pos ⟨h.gate happ, rfl, rfl⟩]
      omega
    have hunsigned : doneSlots current.id inst.revisionNo inst.steps = [] := by
      rw [Version.state?_id hstate]
      exact ho.unsigned
    have hauth := h.authority
    rw [executedAuthority, hact, happ] at hauth
    obtain ⟨out, hok, hnew⟩ := approveGate_accepts (t := t) ho.pinned hstate hopen
      (by simp [hunsigned]) (ho.checkSegregation_eq hstate (h.maker happ)) hauth
    exact ⟨out, by simpa [decideAction, happ] using hok, hnew⟩
  · obtain ⟨out, hdec, hto⟩ := decideAction_of_authority hact happ h.authority
    exact ⟨out, hdec, .inl hto⟩

/-- On a ladder a routed call with a new key that is admitted is taken. -/
theorem OnLadder.accepts [ToString κ] {v : Published κ} (ho : OnLadder v.toVersion rank inst)
    (hreplay : replayed inst r.idempotencyKey = none)
    (hkey : r.idempotencyKey = none ∨ ∀ e ∈ inst.events, e.idempotencyKey ≠ r.idempotencyKey)
    (hroute : route v.toVersion inst r = .ok (current, t))
    (h : Admitted dir v.toVersion inst r current t) :
    ∃ e inst', executeAction dir v.toVersion inst r = .ok (e, inst') := by
  obtain ⟨-, hstate, -, hsel, -⟩ := route_eq_ok.1 hroute
  obtain ⟨out, hdec, hnew⟩ := ho.decides hstate (selectTransition_mem hsel).2.2.1 h
  exact executeAction_routed hreplay hkey hroute hdec hnew

/-! ## What is offered is admitted -/

/-- An action leads one way out of a state, and an approval leaves a gate that names its
permission. -/
structure SingleRouted (v : Version κ) : Prop where
  unique : ∀ t ∈ v.transitions, ∀ t' ∈ v.transitions, t'.fromStateId = t.fromStateId →
    t'.action = t.action → t' = t
  gates : ∀ t ∈ v.transitions, t.action = .approve → ∀ s ∈ v.states, s.id = t.fromStateId →
    s.isApprovalGate = true ∧ ¬ blank s.requiredPermission

/-- Where an action leads one way, whoever it is offered to is admitted. -/
theorem SingleRouted.admitted {v : Version κ} (hv : SingleRouted v)
    (hstate : v.state? inst.currentStateId = some current)
    (hsel : selectTransition v inst current r.action = some t) {at? : Option Time}
    (hnow : r.now.getD dir.utcNow = at?.getD dir.utcNow) {amount : Option ℤ}
    (h : r.action ∈ availableActions dir v { inst with amount := amount } r.actorUserId at?) :
    Admitted dir v inst r current t := by
  obtain ⟨hmem, hfrom, hact, -⟩ := selectTransition_mem hsel
  obtain ⟨current', hstate', -, t', hmem', hfrom', hact', -, hoff⟩ := mem_availableActions.1 h
  obtain rfl := Option.some.inj (hstate.symm.trans hstate')
  obtain rfl := hv.unique t hmem t' hmem' (hfrom'.trans hfrom.symm) (hact'.trans hact.symm)
  rw [← hnow] at hoff
  by_cases happ : r.action = .approve
  · obtain ⟨hgate, hperm⟩ := hv.gates t' hmem (hact.trans happ) current
      (List.mem_of_find?_eq_some hstate) hfrom.symm
    simp only [offered, hact, happ, orText_of_not_blank hperm, decide_eq_true_eq] at hoff
    obtain ⟨-, -, hmaker, hauth⟩ := hoff
    refine ⟨?_, fun _ => hgate, fun _ => hmaker⟩
    rw [executedAuthority, hact, happ]
    exact hauth
  · refine ⟨?_, fun ha => absurd ha happ, fun ha => absurd ha happ⟩
    unfold offered at hoff
    unfold executedAuthority
    rw [hact] at hoff ⊢
    cases hr : r.action with
    | approve => exact absurd hr happ
    | _ =>
        rw [hr] at hoff
        exact hoff

theorem route_spares {v : Version κ} : SparesAll (route v inst r) := by
  simp [route, staleVersion, stateConflict, transitionNotAllowed, commentRequired]

theorem advance_spares {v : Version κ} {out : Outcome} {now : Time} :
    SparesAll (advance v inst current r out now) := by
  simp [advance, enteredSteps]

/-- On a ladder nobody is refused an action that is offered to them, whatever the amount has become
since. -/
theorem OnLadder.spares [ToString κ] {v : Published κ} (ho : OnLadder v.toVersion rank inst)
    (hv : SingleRouted v.toVersion) {at? : Option Time}
    (hnow : r.now.getD dir.utcNow = at?.getD dir.utcNow) (amount : Option ℤ)
    (h : r.action ∈ availableActions dir v.toVersion { inst with amount := amount }
      r.actorUserId at?) :
    SparesAll (executeAction dir v.toVersion inst r) := by
  unfold executeAction
  cases replayed inst r.idempotencyKey with
  | some event => exact raises_ok _
  | none =>
      refine raises_bind.2 ⟨route_spares, fun p hroute => ?_⟩
      obtain ⟨current, t⟩ := p
      obtain ⟨-, hstate, -, hsel, -⟩ := route_eq_ok.1 hroute
      obtain ⟨out, hdec, -⟩ := ho.decides hstate (selectTransition_mem hsel).2.2.1
        (hv.admitted hstate hsel hnow h)
      refine raises_bind.2 ⟨?_, fun out' _ => advance_spares⟩
      rw [hdec]
      exact raises_ok _

end OfficeConnect.Workflow
