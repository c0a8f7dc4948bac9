import OfficeConnect.Workflow.Segregation

/-!
# When an action is accepted

The executor the other way round: a call that passes the checks returns.  On a reachable instance
nothing but the routing, the open slot, the actor's own earlier approval, the maker rule and the
authority can refuse a commented, unversioned call with a fresh key.
-/

namespace OfficeConnect.Workflow

open Lib

variable {κ : Type}

/-- The call carries a comment, no expected version and a key that labels no event. -/
structure Request.Plain (inst : Instance) (r : Request) : Prop where
  comment : ¬ blank r.comment
  unversioned : r.expectedVersion = none
  fresh : r.idempotencyKey = none ∨ ∀ e ∈ inst.events, e.idempotencyKey ≠ r.idempotencyKey

theorem Request.Plain.replayed {inst : Instance} {r : Request} (h : r.Plain inst) :
    replayed inst r.idempotencyKey = none := by
  unfold Workflow.replayed
  split_ifs with hblank
  · rfl
  · rcases h.fresh with hnone | hfresh
    · exact absurd (.inl hnone) hblank
    · rw [List.find?_eq_none]
      intro e he
      simpa using hfresh e he

section

variable [ToString κ] {v : Published κ} {dir : Directory} {inst : Instance} {r : Request}
  {current : State κ} {t : Transition} {out : Outcome}

/-- A routed call whose branch decides is accepted: a published transition leads somewhere. -/
theorem executeAction_routed (hreplay : replayed inst r.idempotencyKey = none)
    (hkey : r.idempotencyKey = none ∨ ∀ e ∈ inst.events, e.idempotencyKey ≠ r.idempotencyKey)
    (hroute : route v.toVersion inst r = .ok (current, t))
    (hdec : decideAction dir v.toVersion inst current t r (r.now.getD dir.utcNow) = .ok out)
    (hnew : out.newStateId = t.toStateId ∨ out.newStateId = current.id) :
    ∃ e inst', executeAction dir v.toVersion inst r = .ok (e, inst') := by
  obtain ⟨-, -, -, hsel, -⟩ := route_eq_ok.1 hroute
  have hent : ∃ entered, enteredSteps v.toVersion inst current out (r.now.getD dir.utcNow) =
      .ok entered := by
    by_cases hstay : out.newStateId = current.id
    · exact ⟨[], enteredSteps_eq_ok.2 (.inl ⟨hstay, rfl⟩)⟩
    · have hto : out.newStateId = t.toStateId := hnew.resolve_right hstay
      obtain ⟨next, hnext⟩ := v.target_exists (selectTransition_mem hsel).1
      exact ⟨_, enteredSteps_eq_ok.2 (.inr ⟨hstay, next, by rw [hto]; exact hnext, rfl⟩)⟩
  obtain ⟨entered, hent⟩ := hent
  have hunique : ¬ (r.idempotencyKey ≠ none ∧ ∃ e ∈ inst.events,
      e.idempotencyKey = r.idempotencyKey) := by
    rintro ⟨hne, e, he, heq⟩
    exact (hkey.resolve_left hne) e he heq
  exact ⟨_, _, executeAction_eq_ok.2 (.inr ⟨hreplay, current, t, out, hroute, hdec,
    advance_eq_ok.2 ⟨entered, hent, hunique, rfl, rfl⟩⟩)⟩

theorem executeAction_accepts (hr : r.Plain inst)
    (hstate : v.state? inst.currentStateId = some current) (hkind : current.kind ≠ .terminal)
    (hsel : selectTransition v.toVersion inst current r.action = some t)
    (hdec : decideAction dir v.toVersion inst current t r (r.now.getD dir.utcNow) = .ok out)
    (hnew : out.newStateId = t.toStateId ∨ out.newStateId = current.id) :
    ∃ e inst', executeAction dir v.toVersion inst r = .ok (e, inst') := by
  have hroute : route v.toVersion inst r = .ok (current, t) :=
    route_eq_ok.2 ⟨by simp [hr.unversioned], hstate, hkind, hsel, fun h => hr.comment h.2⟩
  exact executeAction_routed hr.replayed hr.fresh hroute hdec hnew

/-- The actors the segregation check compares. -/
theorem doneActors_gateSteps (g rev : ℕ) :
    doneActors (inst.gateSteps g rev) = (doneSlots g rev inst.steps).filterMap Prod.fst := by
  simp only [doneActors, Instance.gateSteps, gateRows, doneSlots, List.filter_filter,
    List.filterMap_map, Function.comp_def]
  congr 1
  refine List.filter_congr fun s _ => ?_
  simp [and_comm]

/-- Where the actors so far are distinct and none is the maker, the check lets everyone else in. -/
theorem checkSegregation_accepts (hs : Signed v.toVersion inst)
    (hstate : v.state? inst.currentStateId = some current)
    (hfresh : some r.actorUserId ∉
      (doneSlots current.id inst.revisionNo inst.steps).map Prod.fst)
    (hmaker : ¬ (current.enforceSegregation ∧ inst.originatorUserId = some r.actorUserId)) :
    checkSegregation inst current (inst.gateSteps current.id inst.revisionNo) r.actorUserId =
      .ok () := by
  unfold checkSegregation
  cases horig : inst.originatorUserId with
  | none => rfl
  | some maker =>
      by_cases henf : current.enforceSegregation
      · have hid := Version.state?_id hstate
        set done := doneSlots current.id inst.revisionNo inst.steps with hdone
        have hmem : ∀ a, a ∈ done.filterMap Prod.fst ↔ some a ∈ done.map Prod.fst := by
          intro a
          simp [List.mem_filterMap]
        have hnotMaker : maker ∉ done.filterMap Prod.fst := by
          rw [hmem]
          exact hs.notMaker current.id inst.revisionNo current (by rw [hid]; exact hstate) henf
            maker horig
        have hnodup : (done.filterMap Prod.fst).Nodup := by
          have hmap := hs.distinct current.id inst.revisionNo
          rw [← hdone] at hmap
          rw [show done.filterMap Prod.fst = (done.map Prod.fst).filterMap id by
            rw [List.filterMap_map]; rfl]
          exact hmap.filterMap fun a b c hc hc' => by
            simp only [id, Option.mem_def] at hc hc'
            rw [hc, hc']
        have hactor : r.actorUserId ∉ done.filterMap Prod.fst := by
          rw [hmem]
          exact hfresh
        have hne : maker ≠ r.actorUserId := by
          rintro rfl
          exact hmaker ⟨henf, horig⟩
        simp only [henf, if_true, assertSegregation, doneActors_gateSteps, ← hdone]
        rw [refuse_of_not _ (by simp [hnotMaker, hne]), ok_bind, refuse_of_not]
        rw [not_not]
        refine hnodup.append (List.nodup_singleton _) ?_
        rw [List.disjoint_singleton]
        exact hactor
      · simp [henf]

/-- The approval branch decides when the gate has an open slot, the actor holds the gate's permission
and has filled no slot of it, and the segregation check passes. -/
theorem approveGate_accepts {now : Time} (hp : Pinned v.toVersion inst)
    (hstate : v.state? inst.currentStateId = some current)
    (hopen : 0 < openSlots current.id inst.revisionNo inst.steps)
    (hfresh : some r.actorUserId ∉
      (doneSlots current.id inst.revisionNo inst.steps).map Prod.fst)
    (hseg : checkSegregation inst current (inst.gateSteps current.id inst.revisionNo)
      r.actorUserId = .ok ())
    (hauth : (resolveAuthority dir r.actorUserId current.requiredPermission inst.orgUnitId
      v.definitionId now).authorized = true) :
    ∃ out, approveGate dir v.toVersion inst current t r now = .ok out ∧
      (out.newStateId = t.toStateId ∨ out.newStateId = current.id) := by
  obtain ⟨s, hslot⟩ : ∃ s, inst.steps.find? (activeSlot current.id inst.revisionNo) = some s := by
    obtain ⟨s, hs, hat, hactive⟩ := openSlots_pos.1 hopen
    exact Option.isSome_iff_exists.1 (List.find?_isSome.2 ⟨s, hs, by simp [activeSlot, hat, hactive]⟩)
  have hacted : ¬ ∃ x ∈ inst.gateSteps current.id inst.revisionNo,
      x.actedByUserId = some r.actorUserId ∧ x.status = .done := by
    rintro ⟨x, hx, hactor, hdone⟩
    obtain ⟨hmem, hat⟩ := mem_gateSteps.1 hx
    exact hfresh (List.mem_map.2 ⟨_, mem_doneSlots.2 ⟨x, hmem, hat, hdone, hactor, rfl⟩, rfl⟩)
  have hslotAuth : (slotAuthority dir v.toVersion r s now).authorized = true := by
    obtain ⟨hperm, horg⟩ := hp.activeSlot hstate hslot
    rwa [slotAuthority, hperm, horg]
  obtain ⟨out, hok⟩ : ∃ out, approveGate dir v.toVersion inst current t r now = .ok out :=
    ⟨_, approveGate_eq_ok.2 ⟨hacted, s, hslot, hslotAuth, hseg, rfl⟩⟩
  refine ⟨out, hok, ?_⟩
  obtain ⟨-, s', -, -, -, rfl⟩ := approveGate_eq_ok.1 hok
  dsimp only
  split_ifs
  · exact .inl rfl
  · exact .inr rfl

/-- An approval is accepted when the gate has an open slot and the actor holds the gate's
permission, has filled no slot of it and is not its maker. -/
theorem approve_accepts (hp : Pinned v.toVersion inst) (hs : Signed v.toVersion inst)
    (hr : r.Plain inst) (ha : r.action = .approve)
    (hstate : v.state? inst.currentStateId = some current) (hkind : current.kind ≠ .terminal)
    (hsel : selectTransition v.toVersion inst current .approve = some t)
    (hopen : 0 < openSlots current.id inst.revisionNo inst.steps)
    (hfresh : some r.actorUserId ∉
      (doneSlots current.id inst.revisionNo inst.steps).map Prod.fst)
    (hmaker : ¬ (current.enforceSegregation ∧ inst.originatorUserId = some r.actorUserId))
    (hauth : (resolveAuthority dir r.actorUserId current.requiredPermission inst.orgUnitId
      v.definitionId (r.now.getD dir.utcNow)).authorized = true) :
    ∃ e inst', executeAction dir v.toVersion inst r = .ok (e, inst') := by
  obtain ⟨out, hok, hnew⟩ := approveGate_accepts (t := t) hp hstate hopen hfresh
    (checkSegregation_accepts hs hstate hfresh hmaker) hauth
  exact executeAction_accepts hr hstate hkind (by rw [ha]; exact hsel)
    (by simpa [decideAction, ha] using hok) hnew

end

end OfficeConnect.Workflow
