import OfficeConnect.Reimbursement.Standing
import OfficeConnect.Workflow.Offer

/-!
# Closed claims went through the whole chain

A claim is paid or settled only after every gate of its chain signed it, in order, since the last
submission; each signature was put by a call of someone authorized for that gate at that time.
-/

namespace OfficeConnect.Reimbursement

open Lib Workflow

/-! ## Who signed -/

/-- The actor holds the permission in the unit, or a delegation in force from someone who does. -/
def MaySign (dir : Directory) (kind : Kind) (gate : State Status) (unit : Option ℕ) (now : Time)
    (actor : ℕ) : Prop :=
  ∃ perm, gate.requiredPermission = some perm ∧
    (dir.authorizeScoped actor perm unit = true ∨
      ∃ d ∈ candidateDelegations dir actor unit (chain kind).definitionId now,
        dir.authorizeScoped d.delegatorUserId perm unit = true)

/-- The call signs a gate of the claim's instance: its actor is authorized there and then and, where
the gate segregates, is not the originator. -/
def Signs (c : Call) (i : ℕ) (kind : Kind) (inst : Instance) (gate : State Status) (e : Event) :
    Prop :=
  ∃ r, c.action? = some r ∧ r.claimId = i ∧ e.actorUserId = some r.actorUserId ∧
    MaySign c.env.directory kind gate inst.orgUnitId (c.env.at r.now) r.actorUserId ∧
    (gate.enforceSegregation = true → inst.originatorUserId ≠ some r.actorUserId)

/-- A call of the run appended the event to the instance `j`, signing the gate. -/
def Attests (calls : List Call) (i j : ℕ) (kind : Kind) (inst : Instance) (gate : State Status)
    (e : Event) : Prop :=
  ∃ pre c post before after, calls = pre ++ c :: post ∧
    (runStore pre).instances[j]? = some before ∧
    (runStore (pre ++ [c])).instances[j]? = some after ∧ after.events = before.events ++ [e] ∧
    Signs c i kind inst gate e

section

variable {c : Call} {i : ℕ} {f f' : CaseFile} {kind : Kind} {inst inst' : Instance} {e : Event}

theorem maySign_of_authorized {dir : Directory} {gate : State Status} {unit : Option ℕ} {now : Time}
    {actor : ℕ} (hgate : gate.requiredPermission ≠ none)
    (h : (resolveAuthority dir actor gate.requiredPermission unit (chain kind).definitionId
      now).authorized = true) : MaySign dir kind gate unit now actor := by
  obtain ⟨perm, hperm⟩ := Option.ne_none_iff_exists'.1 hgate
  refine ⟨perm, hperm, ?_⟩
  rw [hperm] at h
  unfold resolveAuthority at h
  dsimp only at h
  split_ifs at h with hdirect
  · exact .inl hdirect
  · split at h
    · rename_i d hd
      exact .inr ⟨d, List.mem_of_find?_eq_some hd, by simpa using List.find?_some hd⟩
    · cases h

theorem Fired.signs {r : ActionRequest} {amount : Option ℤ} {current : State Status} {t : Transition}
    {out : Outcome} {entered : List Step}
    (h : Fired c.env.directory (chain kind).toVersion { inst with amount := amount }
      (r.request c.env inst) current t out entered inst')
    (hp : Pinned (chain kind).toVersion inst) (hr : c.action? = some r) (hi : r.claimId = i)
    (ha : r.action = .approve) :
    Signs c i kind inst current (emitEvent current (r.request c.env inst) out) := by
  have hauth := h.authorized hp
  have hact : t.action = .approve := h.transition.2.2.trans ha
  rw [executedAuthority, hact] at hauth
  have hgate : current.requiredPermission ≠ none := by
    have hopen := (h.openSlots_approve ha (hp.uniform h.state)).1
    obtain ⟨s, hs, hat, -⟩ := openSlots_pos.1 hopen
    obtain ⟨-, -, state, hstate, hisGate, -, -, -⟩ := hp s hs
    rw [hat.1, h.current_id, h.state] at hstate
    obtain rfl := Option.some.inj hstate
    have hall : ∀ k, ∀ s ∈ (chain k).states, s.isApprovalGate = true →
        s.requiredPermission ≠ none := by
      intro k
      cases k <;> decide
    exact hall kind current (List.mem_of_find?_eq_some h.state) hisGate
  exact ⟨r, hr, hi, rfl, maySign_of_authorized hgate hauth, fun henf => h.actor_ne_maker ha henf⟩

/-- An approval on the instance after a step was there before, or the step appended it. -/
theorem FileStep.approval (h : FileStep c i f f') (hf : Standing f) (hinst' : f'.inst = some inst')
    (he : e ∈ inst'.events) (ha : e.action = some .approve) :
    f'.spine.kind = f.spine.kind ∧ f'.spine.link = f.spine.link ∧ ∃ inst, f.inst = some inst ∧
      inst'.orgUnitId = inst.orgUnitId ∧ inst'.originatorUserId = inst.originatorUserId ∧
      (e ∈ inst.events ∨ inst'.events = inst.events ++ [e] ∧
        ∃ gate ∈ (chain f.spine.kind).states, e.fromStateId = some gate.id ∧
          Signs c i f.spine.kind inst gate e) := by
  cases h with
  | same => exact ⟨rfl, rfl, inst', hinst', rfl, rfl, .inl he⟩
  | quiet inst inst₁ hinst hquiet hdated =>
      obtain rfl := Option.some.inj hinst'
      obtain ⟨extra, hevents, hextra⟩ := hquiet.events
      refine ⟨rfl, rfl, inst, hinst, hquiet.orgUnit, hquiet.originator, .inl ?_⟩
      rw [hevents] at he
      rcases List.mem_append.1 he with he | he
      · exact he
      · rw [(hextra e he).2.1] at ha
        cases ha
  | dropped rows hlink hrows => exact ⟨rfl, rfl, inst', hinst', rfl, rfl, .inl he⟩
  | submitted r j initial start now due inst v e' inst₁ dest rows hr hi hlink hlive hinitial hinst
      hrun hrows =>
      -- a submission logs the start and the submission, no approval
      obtain rfl := Option.some.inj hinst'
      have hp := placed_newInstance start now hinitial
      rw [← hinst] at hp
      rw [stamped_events] at he
      have hstart : ∀ x ∈ inst.events, x.action = none := by simp [hinst, newInstance]
      rcases hrun.cases hp with ⟨-, rfl⟩ | ⟨current, t, out, entered, hfired, -, -⟩
      · rw [hstart e he] at ha
        cases ha
      · rw [hfired.result] at he
        rcases List.mem_append.1 he with he | he
        · rw [hstart e he] at ha
          cases ha
        · rw [List.mem_singleton.1 he] at ha
          cases ha
  | acted r inst amount due v e' inst₁ dest rows hr hi hlink hinst hrun hrows =>
      obtain rfl := Option.some.inj hinst'
      obtain ⟨inst₀, hinst₀, hp⟩ := hf.linked hlink
      obtain rfl := Option.some.inj (hinst.symm.trans hinst₀)
      have hstamp := quiet_stamped f.spine.kind dest due inst₁
      rw [stamped_events] at he
      refine ⟨rfl, rfl, inst, hinst, ?_⟩
      rw [hstamp.orgUnit, hstamp.originator, stamped_events]
      rcases hrun.cases hp with ⟨-, rfl⟩ | ⟨current, t, out, entered, hfired, -, -⟩
      · exact ⟨rfl, rfl, .inl he⟩
      · have hres := hfired.result
        subst hres
        refine ⟨rfl, rfl, ?_⟩
        rcases List.mem_append.1 he with he | he
        · exact .inl he
        · obtain rfl := List.mem_singleton.1 he
          have happ : r.action = .approve := Option.some.inj ha
          exact .inr ⟨rfl, current, List.mem_of_find?_eq_some hfired.state, rfl,
            Fired.signs hfired hp.onLadder.pinned hr hi happ⟩

end

/-! ## Every approval of a run was put by one of its calls -/

theorem Attests.append {calls : List Call} {i j : ℕ} {kind : Kind} {inst inst' : Instance}
    {gate : State Status} {e : Event} (h : Attests calls i j kind inst gate e) (c : Call)
    (hunit : inst'.orgUnitId = inst.orgUnitId)
    (horig : inst'.originatorUserId = inst.originatorUserId) :
    Attests (calls ++ [c]) i j kind inst' gate e := by
  obtain ⟨pre, c', post, before, after, rfl, hpre, hpost, hevents, hsigns⟩ := h
  refine ⟨pre, c', post ++ [c], before, after, by simp, hpre, hpost, hevents, ?_⟩
  unfold Signs at hsigns ⊢
  rw [hunit, horig]
  exact hsigns

theorem runStore_concat (calls : List Call) (c : Call) :
    runStore (calls ++ [c]) = commit Call.step (runStore calls) c := by
  simp [runStore, run_append]

theorem attested (calls : List Call) {i j : ℕ} {f : CaseFile} {inst : Instance} {e : Event}
    (hf : (runStore calls).file? i = some f) (hlink : f.spine.link = some j)
    (hinst : f.inst = some inst) (he : e ∈ inst.events) (ha : e.action = some .approve) :
    ∃ gate ∈ (chain f.spine.kind).states, e.fromStateId = some gate.id ∧
      Attests calls i j f.spine.kind inst gate e := by
  induction calls using List.reverseRecOn generalizing f inst with
  | nil => simp [runStore, Store.file?, Docket.file?, Store.docket] at hf
  | append_singleton calls c ih =>
      have hreg := regular_runStore calls
      cases hok : c.step (runStore calls) with
      | error err =>
          have hsame : runStore (calls ++ [c]) = runStore calls := by
            rw [runStore_concat, commit, hok]
          rw [hsame] at hf
          obtain ⟨gate, hgate, hfrom, hattests⟩ := ih hf hlink hinst he
          exact ⟨gate, hgate, hfrom, hattests.append c rfl rfl⟩
      | ok σ' =>
          have hnext : runStore (calls ++ [c]) = σ' := by
            rw [runStore_concat, commit_of_ok hok]
          rw [hnext] at hf
          rcases hreg.file_step hok hf with ⟨f₀, hf₀, hstep⟩ | ⟨-, hopened⟩
          · obtain ⟨hkind, hlink₀, inst₀, hinst₀, hunit, horig, hcases⟩ :=
              hstep.approval (standing_runStore calls hf₀) hinst he ha
            rw [hkind]
            rw [hlink₀] at hlink
            rcases hcases with hold | ⟨hevents, gate, hgate, hfrom, hsigns⟩
            · obtain ⟨gate, hgate, hfrom, hattests⟩ := ih hf₀ hlink hinst₀ hold
              exact ⟨gate, hgate, hfrom, hattests.append c hunit horig⟩
            · refine ⟨gate, hgate, hfrom, calls, c, [], inst₀, inst, rfl, ?_, ?_, hevents, ?_⟩
              · rw [inst_of_file? hf₀ hlink, hinst₀]
              · rw [hnext, inst_of_file? hf (hlink₀.trans hlink), hinst]
              · unfold Signs at hsigns ⊢
                rw [hunit, horig]
                exact hsigns
          · rw [hopened.inst] at hinst
            cases hinst

/-! ## The chain of a closed claim -/

/-- The status a claim is closed in. -/
def closing : Kind → Status
  | .reimbursement => .paidClosed
  | .liquidation => .settled

/-- A claim that shows its closing status has an instance that stands there, with the whole chain
signed in its last round. -/
theorem Placed.closed {kind : Kind} {inst : Instance} (h : Placed kind (closing kind) inst) :
    (rungs kind).Forall₂ (fun g e => e.action = some .approve ∧ e.fromStateId = some g)
      (lastRound inst.events) := by
  obtain ⟨s, hs, -, hcode⟩ := h.terminal (by cases kind <;> decide)
  have hclosing : ∀ k, ∀ s ∈ (chain k).states, s.code = closing k →
      cleared k s.id = some (rungs k) := by
    intro k
    cases k <;> decide
  refine h.climbed (rungs kind) ?_
  rw [← Version.state?_id hs]
  exact hclosing kind s (List.mem_of_find?_eq_some hs) hcode

theorem exists_gate (kind : Kind) : ∀ code ∈ signatories kind, ∀ gate ∈ (chain kind).states,
    gate.id = stateId kind code → gate.code = code := by
  cases kind <;> decide

/-- A paid reimbursement or a settled liquidation has, since its last submission, exactly the
approvals of its chain in order, each put by a call of someone authorized for that gate. -/
theorem closed_in_chain_order (calls : List Call) (i : ℕ) (claim : Claim)
    (hclaim : (runStore calls).claims[i]? = some claim)
    (hclosed : claim.status = closing claim.kind) :
    ∃ j inst, claim.workflowInstanceId = some j ∧ (runStore calls).instances[j]? = some inst ∧
      (signatories claim.kind).Forall₂ (fun code e => e.action = some .approve ∧
        ∃ gate ∈ (chain claim.kind).states, gate.code = code ∧ e.fromStateId = some gate.id ∧
          Attests calls i j claim.kind inst gate e) (lastRound inst.events) := by
  have hfile := exists_file hclaim
  have hstanding := standing_runStore calls hfile
  obtain ⟨j, hj⟩ : ∃ j, claim.workflowInstanceId = some j := by
    refine Option.ne_none_iff_exists'.1 fun hnone => ?_
    have hopen := hstanding.unlinked hnone
    change claim.status = .draft ∨ claim.status = .cancelled at hopen
    rw [hclosed] at hopen
    cases hkind : claim.kind <;> simp [hkind, closing] at hopen
  obtain ⟨inst, hinst, hp⟩ := placed_runStore calls hclaim hj
  rw [hclosed] at hp
  refine ⟨j, inst, hj, hinst, ?_⟩
  have hround := hp.closed
  rw [rungs, List.forall₂_map_left_iff] at hround
  have hboth := (List.forall₂_and_left (p := (· ∈ signatories claim.kind)) _ _).2
    ⟨fun _ h => h, hround⟩
  have hall := (List.forall₂_and_left (p := (· ∈ lastRound inst.events)) _ _).2
    ⟨fun _ h => h, hboth.flip⟩
  refine hall.flip.imp fun code e ⟨he, hcode, happrove, hfrom⟩ => ⟨happrove, ?_⟩
  have hlink : ((runStore calls).docket.file i claim.spine).spine.link = some j := hj
  obtain ⟨gate, hgate, hfrom', hattests⟩ := attested calls hfile hlink
    ((inst_of_file? hfile hlink).symm.trans hinst) (mem_of_mem_lastRound he) happrove
  have hid : gate.id = stateId claim.kind code := Option.some.inj (hfrom'.symm.trans hfrom)
  exact ⟨gate, hgate, exists_gate claim.kind code hcode gate hgate hid, hfrom', hattests⟩

theorem settleTrip_chain_order : ∃ claim,
    (runStore (inOffice (settleTrip 1000))).claims[0]? = some claim ∧
    claim.status = closing claim.kind ∧
    ∃ j inst, claim.workflowInstanceId = some j ∧
      (runStore (inOffice (settleTrip 1000))).instances[j]? = some inst ∧
      (signatories claim.kind).Forall₂ (fun code e => e.action = some .approve ∧
        ∃ gate ∈ (chain claim.kind).states, gate.code = code ∧ e.fromStateId = some gate.id ∧
          Attests (inOffice (settleTrip 1000)) 0 j claim.kind inst gate e)
        (lastRound inst.events) := by
  obtain ⟨claim, hclaim, hstatus⟩ := exists_eq_some
    (o := (runStore (inOffice (settleTrip 1000))).claims[0]?) (fun c => c.status = closing c.kind)
    (by decide +kernel)
  have hclosed : claim.status = closing claim.kind := by simpa using hstatus
  exact ⟨claim, hclaim, hclosed, closed_in_chain_order _ 0 claim hclaim hclosed⟩

end OfficeConnect.Reimbursement
