import OfficeConnect.Workflow.Machine

/-!
# Segregation of duties

Two identities flow through an approval, the actor and the person the actor stands in for.  The
executor compares actors: in every run the actors of a gate's completed slots are distinct, and none
of them is the originator of a segregated gate.  The person whose authority is exercised is only
kept apart in runs where each approval resolves to such an authority.
-/

namespace OfficeConnect.Workflow

open Lib

variable {κ : Type}

/-! ## What an approval has passed -/

section

variable {dir : Directory} {v : Version κ} {inst inst' : Instance} {r : Request} {c : Call}
  {current : State κ} {t : Transition} {out : Outcome} {entered : List Step}

/-- The segregation check keeps the maker away from the gate. -/
theorem checkSegregation_eq_ok {gate : List Step} {actor maker : ℕ}
    (h : checkSegregation inst current gate actor = .ok ()) (henf : current.enforceSegregation)
    (hmaker : inst.originatorUserId = some maker) : maker ≠ actor := by
  simp only [checkSegregation, hmaker, henf, if_true, assertSegregation, bind_eq_ok,
    refuse_eq_ok] at h
  obtain ⟨-, hmem, -⟩ := h
  rintro rfl
  exact hmem (by simp)

/-- The actor of an approval holds no completed slot of the gate. -/
theorem Fired.actor_fresh (h : Fired dir v inst r current t out entered inst')
    (ha : r.action = .approve) :
    some r.actorUserId ∉ (doneSlots current.id inst.revisionNo inst.steps).map Prod.fst := by
  have hok : approveGate dir v inst current t r (r.now.getD dir.utcNow) = .ok out := by
    simpa [decideAction, ha] using h.decided
  obtain ⟨hdup, -⟩ := approveGate_eq_ok.1 hok
  intro hmem
  obtain ⟨⟨a, o⟩, hslot, rfl⟩ := List.mem_map.1 hmem
  obtain ⟨s, hs, hat, hdone, hacted, -⟩ := mem_doneSlots.1 hslot
  exact hdup ⟨s, mem_gateSteps.2 ⟨hs, hat⟩, hacted, hdone⟩

theorem Fired.actor_ne_maker (h : Fired dir v inst r current t out entered inst')
    (ha : r.action = .approve) (henf : current.enforceSegregation) :
    inst.originatorUserId ≠ some r.actorUserId := by
  have hok : approveGate dir v inst current t r (r.now.getD dir.utcNow) = .ok out := by
    simpa [decideAction, ha] using h.decided
  obtain ⟨-, s, -, -, hseg, -⟩ := approveGate_eq_ok.1 hok
  intro hmaker
  exact checkSegregation_eq_ok hseg henf hmaker rfl

/-- A call leaves the completed slots of every gate alone, or it is an approval that adds one to
the current gate. -/
theorem Call.doneSlots_cases (h : c.apply v inst = .ok inst') :
    (∀ g rev, doneSlots g rev inst'.steps = doneSlots g rev inst.steps) ∨
    ∃ dir r current t out entered s, c = .act dir r ∧
      Fired dir v inst r current t out entered inst' ∧ r.action = .approve ∧
      inst.steps.find? (activeSlot current.id inst.revisionNo) = some s ∧
      ∀ g rev, (doneSlots g rev inst'.steps).Perm
        (if g = current.id ∧ rev = inst.revisionNo then
          (some r.actorUserId, (slotAuthority dir v r s (r.now.getD dir.utcNow)).onBehalfOf) ::
            doneSlots g rev inst.steps
        else doneSlots g rev inst.steps) := by
  rcases Call.apply_cases h with hq | ⟨dir, r, current, t, out, entered, rfl, hf⟩
  · exact .inl hq.doneSlots
  by_cases ha : r.action = .approve
  · obtain ⟨s, hs, hperm⟩ := hf.doneSlots_approve ha
    exact .inr ⟨dir, r, current, t, out, entered, s, rfl, hf, ha, hs, hperm⟩
  · exact .inl (hf.doneSlots_other ha)

theorem Call.originator_eq (h : c.apply v inst = .ok inst') :
    inst'.originatorUserId = inst.originatorUserId := by
  rcases Call.apply_cases h with hq | ⟨dir, r, current, t, out, entered, rfl, hf⟩
  · exact hq.originator
  · rw [hf.result]

end

/-! ## Actors, in every run -/

/-- The actors of a gate's completed slots are distinct, and none is the maker where that is
enforced. -/
structure Signed (v : Version κ) (inst : Instance) : Prop where
  signed : ∀ g rev, none ∉ (doneSlots g rev inst.steps).map Prod.fst
  distinct : ∀ g rev, ((doneSlots g rev inst.steps).map Prod.fst).Nodup
  notMaker : ∀ g rev state, v.state? g = some state → state.enforceSegregation = true →
    ∀ maker, inst.originatorUserId = some maker →
      some maker ∉ (doneSlots g rev inst.steps).map Prod.fst

theorem Call.apply_signed {v : Version κ} {inst inst' : Instance} {c : Call}
    (h : c.apply v inst = .ok inst') (hs : Signed v inst) : Signed v inst' := by
  have horig := Call.originator_eq h
  rcases Call.doneSlots_cases h with hsame | ⟨dir, r, current, t, out, entered, s, rfl, hf, ha, -, hperm⟩
  · refine ⟨fun g rev => ?_, fun g rev => ?_, fun g rev => ?_⟩
    · rw [hsame]
      exact hs.signed g rev
    · rw [hsame]
      exact hs.distinct g rev
    · rw [hsame, horig]
      exact hs.notMaker g rev
  · have hmap := fun g rev => (hperm g rev).map Prod.fst
    refine ⟨fun g rev => ?_, fun g rev => ?_, fun g rev state hstate henf maker hmaker => ?_⟩
    · rw [(hmap g rev).mem_iff]
      split_ifs
      · simpa using hs.signed g rev
      · exact hs.signed g rev
    · rw [(hmap g rev).nodup_iff]
      split_ifs with hat
      · obtain ⟨rfl, rfl⟩ := hat
        rw [List.map_cons, List.nodup_cons]
        exact ⟨hf.actor_fresh ha, hs.distinct _ _⟩
      · exact hs.distinct g rev
    · rw [horig] at hmaker
      have hold := hs.notMaker g rev state hstate henf maker hmaker
      rw [(hmap g rev).mem_iff]
      split_ifs with hat
      · obtain ⟨rfl, rfl⟩ := hat
        rw [hf.current_id, hf.state] at hstate
        obtain rfl := Option.some.inj hstate
        have hne := hf.actor_ne_maker ha henf
        rw [List.map_cons, List.mem_cons, not_or]
        exact ⟨fun heq => hne (hmaker.trans heq), hold⟩
      · exact hold

section

variable [ToString κ] {v : Published κ} {initial : State κ}

theorem newInstance_signed (start : Start) (now : Time) :
    Signed v.toVersion (newInstance v.toVersion initial start now) := by
  have hnone : ∀ g rev, doneSlots g rev (newInstance v.toVersion initial start now).steps = [] :=
    fun g rev => doneSlots_activateStateSteps initial start.orgUnitId
  refine ⟨fun g rev => ?_, fun g rev => ?_, fun g rev _ _ _ _ _ => ?_⟩ <;> simp [hnone]

/-- In every run, no two slots of a gate are filled by one actor and no actor of a segregated gate
is the originator. -/
theorem runFrom_signed (start : Start) (now : Time) (calls : List Call) :
    Signed v.toVersion (runFrom v.toVersion initial start now calls) :=
  run_invariant (P := fun _ _ => True) (fun _ _ _ _ hs hc => Call.apply_signed hc hs) calls _
    (newInstance_signed start now) (conforms_true _ _)

end

/-! ## The authority exercised -/

/-- The person whose authority a completed row exercises. -/
def Step.exercised (s : Step) : Option ℕ := s.onBehalfOfUserId.or s.actedByUserId

/-- No completed row of a segregated gate names the originator, and no two completed rows of one
gate in one revision exercise one person's authority. -/
structure SegregatedDuties (v : Version κ) (inst : Instance) : Prop where
  notMaker : ∀ s ∈ inst.steps, s.status = .done →
    ∀ state, v.state? s.stateId = some state → state.enforceSegregation = true →
      ∀ maker, inst.originatorUserId = some maker →
        s.actedByUserId ≠ some maker ∧ s.onBehalfOfUserId ≠ some maker
  distinct : inst.steps.Pairwise fun s s' => s.status = .done → s'.status = .done →
    s.stateId = s'.stateId → s.revisionNo = s'.revisionNo → s.exercised ≠ s'.exercised

/-- An approval that goes through exercises the authority of someone who is not the originator of a
segregated gate and has filled no slot of the gate yet. -/
def KeepsDuties (v : Version κ) (inst : Instance) (c : Call) : Prop :=
  ∀ dir r current t out entered inst', c = .act dir r →
    Fired dir v inst r current t out entered inst' → r.action = .approve →
    ∀ s, inst.steps.find? (activeSlot current.id inst.revisionNo) = some s →
      let person := (slotAuthority dir v r s (r.now.getD dir.utcNow)).onBehalfOf.getD r.actorUserId
      (current.enforceSegregation = true → inst.originatorUserId ≠ some person) ∧
      ∀ s' ∈ inst.gateSteps current.id inst.revisionNo, s'.status = .done →
        s'.exercised ≠ some person

/-- The same law on the completed slots, which is what a run preserves. -/
structure DutiesKept (v : Version κ) (inst : Instance) : Prop where
  notMaker : ∀ g rev state, v.state? g = some state → state.enforceSegregation = true →
    ∀ maker, inst.originatorUserId = some maker →
      some maker ∉ (doneSlots g rev inst.steps).map Prod.snd
  distinct : ∀ g rev, ((doneSlots g rev inst.steps).map fun p => p.2.or p.1).Nodup

theorem Call.apply_dutiesKept {v : Version κ} {inst inst' : Instance} {c : Call}
    (hc : KeepsDuties v inst c) (h : c.apply v inst = .ok inst') (hk : DutiesKept v inst) :
    DutiesKept v inst' := by
  have horig := Call.originator_eq h
  rcases Call.doneSlots_cases h with
    hsame | ⟨dir, r, current, t, out, entered, s, rfl, hf, ha, hslot, hperm⟩
  · refine ⟨fun g rev => ?_, fun g rev => ?_⟩
    · rw [hsame, horig]
      exact hk.notMaker g rev
    · rw [hsame]
      exact hk.distinct g rev
  · obtain ⟨hmk, hdist⟩ := hc dir r current t out entered inst' rfl hf ha s hslot
    refine ⟨fun g rev state hstate henf maker hmaker => ?_, fun g rev => ?_⟩
    · rw [horig] at hmaker
      have hold := hk.notMaker g rev state hstate henf maker hmaker
      rw [((hperm g rev).map Prod.snd).mem_iff]
      split_ifs with hat
      · obtain ⟨rfl, rfl⟩ := hat
        rw [hf.current_id, hf.state] at hstate
        obtain rfl := Option.some.inj hstate
        rw [List.map_cons, List.mem_cons, not_or]
        refine ⟨fun heq => hmk henf ?_, hold⟩
        rw [hmaker, ← show some maker = (slotAuthority dir v r s _).onBehalfOf from heq,
          Option.getD_some]
      · exact hold
    · rw [((hperm g rev).map fun p => p.2.or p.1).nodup_iff]
      split_ifs with hat
      · obtain ⟨rfl, rfl⟩ := hat
        rw [List.map_cons, List.nodup_cons]
        refine ⟨fun hmem => ?_, hk.distinct _ _⟩
        obtain ⟨⟨a, o⟩, hslot', heq⟩ := List.mem_map.1 hmem
        obtain ⟨s', hs', hat', hdone, rfl, rfl⟩ := mem_doneSlots.1 hslot'
        refine hdist s' (mem_gateSteps.2 ⟨hs', hat'⟩) hdone ?_
        rw [← Option.or_some]
        exact heq
      · exact hk.distinct g rev

/-- Distinct values over the completed rows of every gate are distinct over the whole table. -/
theorem pairwise_of_doneSlots {steps : List Step}
    (h : ∀ g rev, ((doneSlots g rev steps).map fun p => p.2.or p.1).Nodup) :
    steps.Pairwise fun s s' => s.status = .done → s'.status = .done →
      s.stateId = s'.stateId → s.revisionNo = s'.revisionNo → s.exercised ≠ s'.exercised := by
  induction steps with
  | nil => exact List.Pairwise.nil
  | cons s steps ih =>
      refine List.pairwise_cons.2 ⟨fun s' hs' hdone hdone' hstate hrev heq => ?_, ih fun g rev => ?_⟩
      · have hnd := h s.stateId s.revisionNo
        rw [doneSlots_cons_of_pos ⟨rfl, rfl⟩ hdone, List.map_cons, List.nodup_cons] at hnd
        have hmem : (s'.actedByUserId, s'.onBehalfOfUserId) ∈
            doneSlots s.stateId s.revisionNo steps :=
          mem_doneSlots.2 ⟨s', hs', ⟨hstate.symm, hrev.symm⟩, hdone', rfl, rfl⟩
        exact hnd.1 (List.mem_map.2 ⟨_, hmem, heq.symm⟩)
      · have hnd := h g rev
        by_cases hs : s.At g rev ∧ s.status = .done
        · rw [doneSlots_cons_of_pos hs.1 hs.2, List.map_cons, List.nodup_cons] at hnd
          exact hnd.2
        · rwa [doneSlots_cons_of_neg hs] at hnd

theorem DutiesKept.segregatedDuties {v : Version κ} {inst : Instance} (hk : DutiesKept v inst)
    (hs : Signed v inst) : SegregatedDuties v inst where
  notMaker := by
    intro s hmem hdone state hstate henf maker hmaker
    have hslot : (s.actedByUserId, s.onBehalfOfUserId) ∈
        doneSlots s.stateId s.revisionNo inst.steps :=
      mem_doneSlots.2 ⟨s, hmem, ⟨rfl, rfl⟩, hdone, rfl, rfl⟩
    refine ⟨fun heq => ?_, fun heq => ?_⟩
    · exact hs.notMaker _ _ state hstate henf maker hmaker (List.mem_map.2 ⟨_, hslot, heq⟩)
    · exact hk.notMaker _ _ state hstate henf maker hmaker (List.mem_map.2 ⟨_, hslot, heq⟩)
  distinct := pairwise_of_doneSlots hk.distinct

section

variable [ToString κ]

/-- In every run whose approvals exercise the authority of a fresh person other than the maker, the
duties stay segregated. -/
theorem segregatedDuties_runFrom (v : Published κ) (initial : State κ) (start : Start) (now : Time)
    (calls : List Call)
    (h : Conforms (Call.apply v.toVersion) (KeepsDuties v.toVersion)
      (newInstance v.toVersion initial start now) calls) :
    SegregatedDuties v.toVersion (runFrom v.toVersion initial start now calls) := by
  have hstart : DutiesKept v.toVersion (newInstance v.toVersion initial start now) := by
    have hnone : ∀ g rev,
        doneSlots g rev (newInstance v.toVersion initial start now).steps = [] :=
      fun g rev => doneSlots_activateStateSteps initial start.orgUnitId
    refine ⟨fun g rev _ _ _ _ _ => ?_, fun g rev => ?_⟩ <;> simp [hnone]
  exact (run_invariant (fun _ _ _ hc hk happ => Call.apply_dutiesKept hc happ hk) calls _ hstart
    h).segregatedDuties (runFrom_signed start now calls)

end

/-! ## A one-gate definition -/

def signatureGate : State String where
  id := 2
  code := "signature"
  isApprovalGate := true
  requiredPermission := some "memo.sign"
  enforceSegregation := true

/-- A memo is drafted, signed at one segregated gate, and done. -/
def memoDraft : Version String where
  id := 1
  definitionId := 1
  states := [
    { id := 1, code := "draft", kind := .initial },
    signatureGate,
    { id := 3, code := "signed", kind := .terminal }]
  transitions := [
    { id := 1, fromStateId := 1, toStateId := 2, action := .submit },
    { id := 2, fromStateId := 2, toStateId := 3, action := .approve }]

def memo : Published String := memoDraft.publish rfl rfl (by decide) (by decide)

/-- User 1 may sign, and user 2 stands in for user 1. -/
def memoDirectory : Directory where
  grants := [{ userId := 1, permission := "memo.sign", orgUnitId := none }]
  delegations := [{ delegatorUserId := 1, delegateUserId := 2, startsAt := 0, endsAt := 10 }]
  utcNow := 5

def memoRun (maker : ℕ) (calls : List Call) : Instance :=
  runFrom memo.toVersion { id := 1, code := "draft", kind := .initial }
    { actorUserId := some maker } 0
    (.act memoDirectory { action := .submit, actorUserId := maker } :: calls)

/-- User 2 signs for user 1. -/
def signForOne : Call := .act memoDirectory { action := .approve, actorUserId := 2 }

/-- The delegate of user 1 clears the gate of user 1's own memo. -/
theorem memo_not_segregated : ¬ SegregatedDuties memo.toVersion (memoRun 1 [signForOne]) := by
  intro h
  have hrow : ∃ s ∈ (memoRun 1 [signForOne]).steps,
      s.status = .done ∧ s.stateId = 2 ∧ s.onBehalfOfUserId = some 1 := by decide +kernel
  obtain ⟨s, hs, hdone, hstate, hbehalf⟩ := hrow
  have hmaker : (memoRun 1 [signForOne]).originatorUserId = some 1 := by decide +kernel
  have hgate : memo.toVersion.state? s.stateId = some signatureGate := by
    rw [hstate]
    rfl
  exact (h.notMaker s hs hdone _ hgate rfl 1 hmaker).2 hbehalf

/-- The same delegate may clear the gate of anyone else's memo. -/
theorem memo_segregated : SegregatedDuties memo.toVersion (memoRun 3 [signForOne]) := by
  refine segregatedDuties_runFrom memo _ _ _ _ ⟨?_, ?_, trivial⟩
  · intro dir r current t out entered inst' heq hf ha
    obtain ⟨rfl, rfl⟩ := Call.act.inj heq
    cases ha
  · change KeepsDuties memo.toVersion (memoRun 3 []) signForOne
    intro dir r current t out entered inst' heq hf ha s hs
    obtain ⟨rfl, rfl⟩ := Call.act.inj heq
    have hperson : ∀ s ∈ (memoRun 3 []).steps, (slotAuthority memoDirectory memo.toVersion
        { action := .approve, actorUserId := 2 } s 5).onBehalfOf.getD 2 = 1 := by decide +kernel
    have hopen : ∀ s ∈ (memoRun 3 []).steps, s.status ≠ .done := by decide +kernel
    refine ⟨fun _ hmaker => ?_, fun s' hs' hdone => ?_⟩
    · have hone := hmaker.trans (congrArg some (hperson s (List.mem_of_find?_eq_some hs)))
      revert hone
      decide +kernel
    · exact absurd hdone (hopen s' (mem_gateSteps.1 hs').1)

end OfficeConnect.Workflow
