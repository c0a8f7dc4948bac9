import OfficeConnect.Workflow.Acceptance

/-!
# The actions on offer

`availableActions` tries every transition whose amount guard passes; `executeAction` takes the first
one and checks its permission, or for an approval the permission pinned on the slot.  On a reachable
instance the offer is sound exactly when no permission opens a later transition to an actor whom the
first one is closed to, and no empty permission is pinned on a gate that a transition opens.
-/

namespace OfficeConnect.Workflow

open Lib

variable {κ : Type}

/-! ## What is listed -/

section

variable {dir : Directory} {v : Version κ} {inst : Instance} {current : State κ} {actor : ℕ}
  {now : Time} {a : Action}

/-- A transition out of the current state that is open and whose own checks let the actor pass. -/
def Offers (dir : Directory) (v : Version κ) (inst : Instance) (current : State κ) (actor : ℕ)
    (now : Time) (t : Transition) : Prop :=
  amountGuardPasses t inst.amount = true ∧ offered dir v inst current actor now t = true

/-- One round of the loop adds the action of an offering transition and nothing else. -/
theorem mem_offer {t : Transition} {allowed : List Action} :
    a ∈ offer dir v inst current actor now allowed t ↔
      a ∈ allowed ∨ t.action = a ∧ Offers dir v inst current actor now t := by
  unfold offer Offers
  by_cases hin : t.action ∈ allowed
  · rw [if_pos hin]
    refine ⟨.inl, ?_⟩
    rintro (ha | ⟨rfl, -⟩)
    · exact ha
    · exact hin
  rw [if_neg hin]
  by_cases hguard : amountGuardPasses t inst.amount = true
  · by_cases hoff : offered dir v inst current actor now t = true
    · simp [hguard, hoff, eq_comm]
    · simp [hoff]
  · simp [hguard]

theorem mem_foldl_offer (ts : List Transition) (allowed : List Action) :
    a ∈ ts.foldl (offer dir v inst current actor now) allowed ↔
      a ∈ allowed ∨ ∃ t ∈ ts, t.action = a ∧ Offers dir v inst current actor now t := by
  induction ts generalizing allowed with
  | nil => simp
  | cons t ts ih => rw [List.foldl_cons, ih, mem_offer, List.exists_mem_cons_iff, or_assoc]

/-- An action is listed when some open transition out of the current state offers it. -/
theorem mem_availableActions {at? : Option Time} :
    a ∈ availableActions dir v inst actor at? ↔
      ∃ current, v.state? inst.currentStateId = some current ∧ current.kind ≠ .terminal ∧
        ∃ t ∈ v.transitions, t.fromStateId = current.id ∧ t.action = a ∧
          Offers dir v inst current actor (at?.getD dir.utcNow) t := by
  unfold availableActions
  cases hstate : v.state? inst.currentStateId with
  | none => simp
  | some current =>
      by_cases hkind : current.kind = .terminal
      · simp [hkind]
      · simp only [hkind, if_false, mem_foldl_offer, List.not_mem_nil, false_or,
          List.mem_insertionSort, List.mem_filter, decide_eq_true_eq, Option.some.injEq]
        constructor
        · rintro ⟨t, ⟨ht, hfrom⟩, rfl, hoff⟩
          exact ⟨current, rfl, hkind, t, ht, hfrom, rfl, hoff⟩
        · rintro ⟨_, rfl, -, t, ht, hfrom, rfl, hoff⟩
          exact ⟨t, ⟨ht, hfrom⟩, rfl, hoff⟩

/-- Where a transition is open, the executor finds one to take. -/
theorem exists_selectTransition {t : Transition} (ht : t ∈ v.transitions)
    (hfrom : t.fromStateId = current.id) (hguard : amountGuardPasses t inst.amount = true) :
    ∃ t₀, selectTransition v inst current t.action = some t₀ := by
  refine Option.isSome_iff_exists.1 (List.find?_isSome.2 ⟨t, ?_, hguard⟩)
  simp [Version.routes, List.mem_insertionSort, ht, hfrom]

end

/-! ## The check the executor makes -/

/-- The authority the executor asks for once it has taken `t`. -/
def executedAuthority (dir : Directory) (v : Version κ) (inst : Instance) (current : State κ)
    (actor : ℕ) (now : Time) (t : Transition) : Authority :=
  match t.action with
  | .approve =>
      resolveAuthority dir actor current.requiredPermission inst.orgUnitId v.definitionId now
  | .return | .reject =>
      resolveAuthority dir actor (orText current.requiredPermission t.requiredPermission)
        inst.orgUnitId v.definitionId now
  | _ => authorizeOriginator dir v inst t actor now

/-- The actor may use a permission on the instance: there is none to ask for, or it is granted over
the instance's unit to the actor or to someone the actor stands in for. -/
def Holds (dir : Directory) (v : Version κ) (inst : Instance) (actor : ℕ) (now : Time)
    (required : Option String) : Prop :=
  ∀ perm, required = some perm →
    dir.authorizeScoped actor perm inst.orgUnitId = true ∨
      ∃ d ∈ candidateDelegations dir actor inst.orgUnitId v.definitionId now,
        dir.authorizeScoped d.delegatorUserId perm inst.orgUnitId = true

/-- The transitions an action finds open, in the order they are tried. -/
def openRoutes (v : Version κ) (inst : Instance) (current : State κ) (a : Action) :
    List Transition :=
  (v.routes current.id a).filter fun t => amountGuardPasses t inst.amount

/-- The permission of a later transition is not held without that of the first. -/
def FirstOpens (holds : Option String → Prop) : List Transition → Prop
  | [] => True
  | first :: others => ∀ t ∈ others, holds t.requiredPermission → holds first.requiredPermission

/-- A slot of the gate is free for the actor, who has filled none and is not kept apart as its
maker. -/
structure MayFill (inst : Instance) (current : State κ) (actor : ℕ) : Prop where
  free : ∃ s ∈ inst.gateSteps current.id inst.revisionNo, s.status = .active
  fresh : ¬ ∃ s ∈ inst.gateSteps current.id inst.revisionNo,
    s.actedByUserId = some actor ∧ s.status = .done
  checker : ¬ (current.enforceSegregation ∧ inst.originatorUserId = some actor)

/-- What the permissions of a state and of its open transitions say to an actor.  A gate pins its own
permission on its slots, an empty one too; a return or a rejection asks for it only where there is
one, and the other actions ask everyone but the originator for the transition's. -/
structure Consistent (dir : Directory) (v : Version κ) (inst : Instance) (current : State κ)
    (actor : ℕ) (now : Time) : Prop where
  approve : current.requiredPermission = some "" → MayFill inst current actor →
    ∀ t ∈ openRoutes v inst current .approve, Holds dir v inst actor now t.requiredPermission →
      Holds dir v inst actor now (some "")
  sentBack : blank current.requiredPermission → ∀ a, a = .return ∨ a = .reject →
    FirstOpens (Holds dir v inst actor now) (openRoutes v inst current a)
  others : inst.originatorUserId ≠ some actor →
    ∀ a, a ≠ .approve → a ≠ .return → a ≠ .reject →
      FirstOpens (Holds dir v inst actor now) (openRoutes v inst current a)

/-- The permissions around the state the instance is in are consistent for the actor. -/
def PermissionsAgree (dir : Directory) (v : Version κ) (inst : Instance) (actor : ℕ) (now : Time) :
    Prop :=
  ∀ current, v.state? inst.currentStateId = some current → current.kind ≠ .terminal →
    Consistent dir v inst current actor now

/-- Whoever an open transition offers its action to is authorized for the one the executor takes. -/
def ChecksAgree (dir : Directory) (v : Version κ) (inst : Instance) (actor : ℕ) (now : Time) :
    Prop :=
  ∀ current, v.state? inst.currentStateId = some current → current.kind ≠ .terminal →
    ∀ t ∈ v.transitions, t.fromStateId = current.id → Offers dir v inst current actor now t →
      ∀ t₀, selectTransition v inst current t.action = some t₀ →
        (executedAuthority dir v inst current actor now t₀).authorized = true

/-- Every listed action is accepted for the same actor at the same time, with a comment, no expected
version and a fresh key. -/
def OfferSound (dir : Directory) (v : Version κ) (inst : Instance) (actor : ℕ)
    (now : Option Time) : Prop :=
  ∀ a ∈ availableActions dir v inst actor now, ∀ r : Request, r.action = a →
    r.actorUserId = actor → r.now = now → r.Plain inst →
    ∃ e inst', executeAction dir v inst r = .ok (e, inst')

section

variable {dir : Directory} {v : Version κ} {inst : Instance} {current : State κ} {actor : ℕ}
  {now : Time} {t : Transition} {a : Action}

theorem authorized_iff_holds {required : Option String} :
    (resolveAuthority dir actor required inst.orgUnitId v.definitionId now).authorized = true ↔
      Holds dir v inst actor now required := by
  cases required with
  | none => simp [resolveAuthority, Holds]
  | some perm =>
      simp only [resolveAuthority, Holds, Option.some.injEq, forall_eq']
      by_cases hself : dir.authorizeScoped actor perm inst.orgUnitId = true
      · simp [hself]
      · rw [if_neg hself, or_iff_right hself, ← List.find?_isSome]
        cases (candidateDelegations dir actor inst.orgUnitId v.definitionId now).find?
            fun d => dir.authorizeScoped d.delegatorUserId perm inst.orgUnitId with
        | none => simp
        | some d => simp

theorem mem_openRoutes : t ∈ openRoutes v inst current a ↔
    t ∈ v.transitions ∧ t.fromStateId = current.id ∧ t.action = a ∧
      amountGuardPasses t inst.amount = true := by
  simp [openRoutes, Version.routes, List.mem_insertionSort, and_assoc]

theorem selectTransition_eq_head? :
    selectTransition v inst current a = (openRoutes v inst current a).head? := by
  rw [selectTransition, openRoutes, List.head?_filter]

/-- Of the open transitions, the first asks for nothing another one does not. -/
theorem firstOpens_iff {holds : Option String → Prop} {ts : List Transition} :
    FirstOpens holds ts ↔ ∀ t ∈ ts, holds t.requiredPermission →
      ∀ t₀, ts.head? = some t₀ → holds t₀.requiredPermission := by
  cases ts with
  | nil => simp [FirstOpens]
  | cons first others =>
      simp only [FirstOpens, List.head?_cons, Option.some.injEq, List.forall_mem_cons, forall_eq']
      exact ⟨fun h => ⟨id, h⟩, fun h => h.2⟩

/-- What the two procedures come to for one action of the state. -/
def AgreeOn (dir : Directory) (v : Version κ) (inst : Instance) (current : State κ) (actor : ℕ)
    (now : Time) (a : Action) : Prop :=
  ∀ t ∈ openRoutes v inst current a, offered dir v inst current actor now t = true →
    ∀ t₀, (openRoutes v inst current a).head? = some t₀ →
      (executedAuthority dir v inst current actor now t₀).authorized = true

theorem checksAgree_iff_agreeOn : ChecksAgree dir v inst actor now ↔
    ∀ current, v.state? inst.currentStateId = some current → current.kind ≠ .terminal →
      ∀ a, AgreeOn dir v inst current actor now a := by
  constructor
  · intro h current hstate hkind a t ht hoff t₀ hhead
    obtain ⟨hmem, hfrom, rfl, hguard⟩ := mem_openRoutes.1 ht
    exact h current hstate hkind t hmem hfrom ⟨hguard, hoff⟩ t₀
      (selectTransition_eq_head?.trans hhead)
  · intro h current hstate hkind t hmem hfrom hoff t₀ hsel
    exact h current hstate hkind t.action t (mem_openRoutes.2 ⟨hmem, hfrom, rfl, hoff.1⟩) hoff.2 t₀
      (selectTransition_eq_head?.symm.trans hsel)

theorem mem_of_head? {ts : List Transition} {t₀ : Transition} (h : ts.head? = some t₀) :
    t₀ ∈ ts := List.mem_of_mem_head? h

/-- A slot asks for the state's permission, the offer for the transition's where that is blank. -/
theorem agreeOn_approve : AgreeOn dir v inst current actor now .approve ↔
    (current.requiredPermission = some "" → MayFill inst current actor →
      ∀ t ∈ openRoutes v inst current .approve, Holds dir v inst actor now t.requiredPermission →
        Holds dir v inst actor now (some "")) := by
  have hexecuted : ∀ t₀ ∈ openRoutes v inst current .approve,
      ((executedAuthority dir v inst current actor now t₀).authorized = true ↔
        Holds dir v inst actor now current.requiredPermission) := by
    intro t₀ ht₀
    rw [executedAuthority, (mem_openRoutes.1 ht₀).2.2.1]
    exact authorized_iff_holds
  have hoffered : ∀ t ∈ openRoutes v inst current .approve,
      (offered dir v inst current actor now t = true ↔ MayFill inst current actor ∧
        Holds dir v inst actor now (orText current.requiredPermission t.requiredPermission)) := by
    intro t ht
    rw [← authorized_iff_holds, offered, (mem_openRoutes.1 ht).2.2.1]
    simp only [decide_eq_true_eq]
    constructor
    · rintro ⟨hfree, hfresh, hchecker, hauth⟩
      exact ⟨⟨hfree, hfresh, hchecker⟩, hauth⟩
    · rintro ⟨⟨hfree, hfresh, hchecker⟩, hauth⟩
      exact ⟨hfree, hfresh, hchecker, hauth⟩
  constructor
  · intro h hempty hfill t ht hholds
    obtain ⟨t₀, hhead⟩ : ∃ t₀, (openRoutes v inst current .approve).head? = some t₀ :=
      Option.isSome_iff_exists.1 (List.isSome_head?.2 (List.ne_nil_of_mem ht))
    have hoff : offered dir v inst current actor now t = true :=
      (hoffered t ht).2 ⟨hfill, by rwa [hempty, orText, if_pos (by simp [blank])]⟩
    rw [← hempty]
    exact (hexecuted t₀ (mem_of_head? hhead)).1 (h t ht hoff t₀ hhead)
  · intro h t ht hoff t₀ hhead
    obtain ⟨hfill, hholds⟩ := (hoffered t ht).1 hoff
    refine (hexecuted t₀ (mem_of_head? hhead)).2 ?_
    by_cases hblank : blank current.requiredPermission
    · rcases hblank with hnone | hempty
      · rw [hnone]
        intro perm hperm
        cases hperm
      · rw [hempty] at hholds ⊢
        exact h hempty hfill t ht (by rwa [orText, if_pos (by simp [blank])] at hholds)
    · rwa [orText_of_not_blank hblank] at hholds

/-- A return and a rejection ask for one permission where the state has one. -/
theorem agreeOn_sentBack (ha : a = .return ∨ a = .reject) :
    AgreeOn dir v inst current actor now a ↔
      (blank current.requiredPermission →
        FirstOpens (Holds dir v inst actor now) (openRoutes v inst current a)) := by
  have hauth : ∀ t ∈ openRoutes v inst current a,
      ((executedAuthority dir v inst current actor now t).authorized = true ↔
        Holds dir v inst actor now (orText current.requiredPermission t.requiredPermission)) ∧
      (offered dir v inst current actor now t = true ↔
        Holds dir v inst actor now (orText current.requiredPermission t.requiredPermission)) := by
    intro t ht
    rw [← authorized_iff_holds, offered, executedAuthority, (mem_openRoutes.1 ht).2.2.1]
    rcases ha with rfl | rfl <;> exact ⟨Iff.rfl, Iff.rfl⟩
  by_cases hblank : blank current.requiredPermission
  · have hperm : ∀ t : Transition,
        orText current.requiredPermission t.requiredPermission = t.requiredPermission :=
      fun t => if_pos hblank
    rw [imp_iff_right hblank, firstOpens_iff]
    constructor
    · intro h t ht hholds t₀ hhead
      have hexec := h t ht ((hauth t ht).2.2 (by rwa [hperm])) t₀ hhead
      simpa only [hperm] using (hauth t₀ (mem_of_head? hhead)).1.1 hexec
    · intro h t ht hoff t₀ hhead
      have hholds := (hauth t ht).2.1 hoff
      rw [hperm] at hholds
      exact (hauth t₀ (mem_of_head? hhead)).1.2 (by rw [hperm]; exact h t ht hholds t₀ hhead)
  · refine iff_of_true ?_ fun h => absurd h hblank
    intro t ht hoff t₀ hhead
    have hholds := (hauth t ht).2.1 hoff
    rw [orText_of_not_blank hblank] at hholds
    exact (hauth t₀ (mem_of_head? hhead)).1.2 (by rwa [orText_of_not_blank hblank])

/-- The other actions are the originator's, and ask anyone else for the transition's permission. -/
theorem agreeOn_others (happ : a ≠ .approve) (hret : a ≠ .return) (hrej : a ≠ .reject) :
    AgreeOn dir v inst current actor now a ↔
      (inst.originatorUserId ≠ some actor →
        FirstOpens (Holds dir v inst actor now) (openRoutes v inst current a)) := by
  have hauth : ∀ t ∈ openRoutes v inst current a,
      ((executedAuthority dir v inst current actor now t).authorized = true ↔
        (authorizeOriginator dir v inst t actor now).authorized = true) ∧
      (offered dir v inst current actor now t = true ↔
        (authorizeOriginator dir v inst t actor now).authorized = true) := by
    intro t ht
    rw [offered, executedAuthority, (mem_openRoutes.1 ht).2.2.1]
    cases a <;> first | contradiction | exact ⟨Iff.rfl, Iff.rfl⟩
  by_cases howner : inst.originatorUserId = some actor
  · refine iff_of_true ?_ fun h => absurd howner h
    intro t ht hoff t₀ hhead
    refine (hauth t₀ (mem_of_head? hhead)).1.2 ?_
    rw [authorizeOriginator, if_pos howner]
  · have hperm : ∀ t : Transition, (authorizeOriginator dir v inst t actor now).authorized = true ↔
        Holds dir v inst actor now t.requiredPermission := by
      intro t
      rw [authorizeOriginator, if_neg howner, authorized_iff_holds]
    rw [imp_iff_right howner, firstOpens_iff]
    constructor
    · intro h t ht hholds t₀ hhead
      have hexec := h t ht ((hauth t ht).2.2 ((hperm t).2 hholds)) t₀ hhead
      exact (hperm t₀).1 ((hauth t₀ (mem_of_head? hhead)).1.1 hexec)
    · intro h t ht hoff t₀ hhead
      have hholds := (hperm t).1 ((hauth t ht).2.1 hoff)
      exact (hauth t₀ (mem_of_head? hhead)).1.2 ((hperm t₀).2 (h t ht hholds t₀ hhead))

/-- The two procedures agree on every action of a state where its permissions are consistent. -/
theorem agreeOn_iff_consistent : (∀ a, AgreeOn dir v inst current actor now a) ↔
    Consistent dir v inst current actor now := by
  constructor
  · intro h
    exact {
      approve := agreeOn_approve.1 (h .approve)
      sentBack := fun hblank a ha => (agreeOn_sentBack ha).1 (h a) hblank
      others := fun howner a happ hret hrej => (agreeOn_others happ hret hrej).1 (h a) howner }
  · intro h a
    by_cases happ : a = .approve
    · rw [happ]
      exact agreeOn_approve.2 h.approve
    by_cases hback : a = .return ∨ a = .reject
    · exact (agreeOn_sentBack hback).2 fun hblank => h.sentBack hblank a hback
    · rw [not_or] at hback
      exact (agreeOn_others happ hback.1 hback.2).2 fun howner =>
        h.others howner a happ hback.1 hback.2

theorem checksAgree_iff_permissionsAgree :
    ChecksAgree dir v inst actor now ↔ PermissionsAgree dir v inst actor now := by
  rw [checksAgree_iff_agreeOn]
  exact forall_congr' fun current => forall_congr' fun _ => forall_congr' fun _ =>
    agreeOn_iff_consistent

end

section

variable {dir : Directory} {v : Version κ} {inst inst' : Instance} {current : State κ}
  {t : Transition} {r : Request} {out : Outcome} {entered : List Step}

/-- The executor takes no transition without the authority it asks for. -/
theorem Fired.authorized (h : Fired dir v inst r current t out entered inst') (hp : Pinned v inst) :
    (executedAuthority dir v inst current r.actorUserId (r.now.getD dir.utcNow) t).authorized =
      true := by
  have hact : t.action = r.action := (selectTransition_mem h.selected).2.2.1
  unfold executedAuthority
  rcases decideAction_cases h.decided with ⟨ha, hok⟩ | ⟨ha, hok⟩ | ⟨happ, hret, hrej, hok⟩
  · obtain ⟨-, s, hslot, hauth, -, -⟩ := approveGate_eq_ok.1 hok
    obtain ⟨hperm, horg⟩ := hp.activeSlot h.state hslot
    rw [slotAuthority, hperm, horg] at hauth
    rw [hact, ha]
    exact hauth
  · obtain ⟨hauth, -⟩ := resolveGate_eq_ok.1 hok
    rcases ha with ha | ha <;> rw [hact, ha] <;> exact hauth
  · obtain ⟨hauth, -⟩ := originatorAction_eq_ok.1 hok
    rw [hact]
    split
    · exact absurd ‹_› happ
    · exact absurd ‹_› hret
    · exact absurd ‹_› hrej
    · exact hauth

/-- The branches without a slot decide when the transition taken authorizes the actor. -/
theorem decideAction_of_authority {now : Time} (hact : t.action = r.action) (happ : r.action ≠ .approve)
    (hauth : (executedAuthority dir v inst current r.actorUserId now t).authorized = true) :
    ∃ out, decideAction dir v inst current t r now = .ok out ∧ out.newStateId = t.toStateId := by
  rw [executedAuthority, hact] at hauth
  by_cases hres : r.action = .return ∨ r.action = .reject
  · have hauth' : (resolveAuthority dir r.actorUserId
        (orText current.requiredPermission t.requiredPermission) inst.orgUnitId v.definitionId
        now).authorized = true := by
      rcases hres with h | h <;> simpa [h] using hauth
    have hdec : decideAction dir v inst current t r now = resolveGate dir v inst current t r now := by
      rcases hres with h | h <;> simp [decideAction, h]
    exact ⟨_, hdec.trans (resolveGate_eq_ok.2 ⟨hauth', rfl⟩), rfl⟩
  · have hauth' : (authorizeOriginator dir v inst t r.actorUserId now).authorized = true := by
      cases h : r.action <;> simp_all
    have hdec : decideAction dir v inst current t r now =
        originatorAction dir v inst t r now := by
      cases h : r.action <;> simp_all [decideAction]
    exact ⟨_, hdec.trans (originatorAction_eq_ok.2 ⟨hauth', rfl⟩), rfl⟩

end

section

variable [ToString κ] {v : Published κ} {dir : Directory} {inst : Instance} {actor : ℕ}
  {now : Option Time}

/-- A return, a rejection or an originator's action is accepted when the transition taken authorizes
the actor. -/
theorem other_accepts {current : State κ} {t : Transition} {r : Request} (hr : r.Plain inst)
    (hstate : v.state? inst.currentStateId = some current) (hkind : current.kind ≠ .terminal)
    (hsel : selectTransition v.toVersion inst current r.action = some t)
    (happ : r.action ≠ .approve)
    (hauth : (executedAuthority dir v.toVersion inst current r.actorUserId
      (r.now.getD dir.utcNow) t).authorized = true) :
    ∃ e inst', executeAction dir v.toVersion inst r = .ok (e, inst') := by
  obtain ⟨out, hdec, hto⟩ :=
    decideAction_of_authority (selectTransition_mem hsel).2.2.1 happ hauth
  exact executeAction_accepts hr hstate hkind hsel hdec (.inl hto)

theorem offerSound_of_checksAgree (hp : Pinned v.toVersion inst) (hs : Signed v.toVersion inst)
    (h : ChecksAgree dir v.toVersion inst actor (now.getD dir.utcNow)) :
    OfferSound dir v.toVersion inst actor now := by
  rintro a ha r rfl rfl rfl hr
  obtain ⟨current, hstate, hkind, t, ht, hfrom, hact, hguard, hoff⟩ := mem_availableActions.1 ha
  obtain ⟨t₀, hsel⟩ := exists_selectTransition ht hfrom hguard
  have hauth := h current hstate hkind t ht hfrom ⟨hguard, hoff⟩ t₀ hsel
  rw [hact] at hsel
  by_cases happ : r.action = .approve
  · simp only [offered, hact, happ, decide_eq_true_eq] at hoff
    obtain ⟨⟨s, hs', hactive⟩, hfresh, hmaker, -⟩ := hoff
    obtain ⟨hmem, hat⟩ := mem_gateSteps.1 hs'
    have hact₀ : t₀.action = .approve := (selectTransition_mem hsel).2.2.1.trans happ
    rw [executedAuthority, hact₀] at hauth
    rw [happ] at hsel
    refine approve_accepts hp hs hr happ hstate hkind hsel
      (openSlots_pos.2 ⟨s, hmem, hat, hactive⟩) (fun hdone => ?_) hmaker hauth
    obtain ⟨⟨actedBy, behalf⟩, hslot, rfl⟩ := List.mem_map.1 hdone
    obtain ⟨s', hs', hat', hd, hacted, -⟩ := mem_doneSlots.1 hslot
    exact hfresh ⟨s', mem_gateSteps.2 ⟨hs', hat'⟩, hacted, hd⟩
  · exact other_accepts hr hstate hkind hsel happ hauth

theorem checksAgree_of_offerSound (hp : Pinned v.toVersion inst)
    (h : OfferSound dir v.toVersion inst actor now) :
    ChecksAgree dir v.toVersion inst actor (now.getD dir.utcNow) := by
  intro current hstate hkind t ht hfrom hoff t₀ hsel
  have hlisted : t.action ∈ availableActions dir v.toVersion inst actor now :=
    mem_availableActions.2 ⟨current, hstate, hkind, t, ht, hfrom, rfl, hoff⟩
  let r : Request := { action := t.action, actorUserId := actor, comment := some "ok", now := now }
  have hr : r.Plain inst := ⟨by simp [r, blank], rfl, .inl rfl⟩
  obtain ⟨e, inst', hex⟩ := h t.action hlisted r rfl rfl rfl hr
  rcases executeAction_cases hex with ⟨hsome, -⟩ | ⟨current', t', out, entered, hf, -⟩
  · rw [hr.replayed] at hsome
    cases hsome
  · obtain rfl : current' = current := Option.some.inj (hf.state.symm.trans hstate)
    obtain rfl : t' = t₀ := Option.some.inj (hf.selected.symm.trans hsel)
    exact hf.authorized hp

/-- On every reachable instance, for every actor, directory and time, the offer is sound exactly when
the permissions around its state agree. -/
theorem offerSound_iff_permissionsAgree (v : Published κ) (initial : State κ)
    (hinit : initialState v.toVersion = some initial) (start : Start) (startedAt : Time)
    (calls : List Call) (dir : Directory) (actor : ℕ) (now : Option Time) :
    OfferSound dir v.toVersion (runFrom v.toVersion initial start startedAt calls) actor now ↔
      PermissionsAgree dir v.toVersion (runFrom v.toVersion initial start startedAt calls) actor
        (now.getD dir.utcNow) := by
  have hpinned := runFrom_pinned hinit start startedAt calls
  rw [← checksAgree_iff_permissionsAgree]
  exact ⟨checksAgree_of_offerSound hpinned,
    offerSound_of_checksAgree hpinned (runFrom_signed start startedAt calls)⟩

end

/-! ## Two ways back -/

/-- A desk with no permission of its own and two returns: the chief's, tried first, and the
clerk's. -/
def deskDraft : Version String where
  id := 1
  definitionId := 1
  states := [
    { id := 1, code := "desk", kind := .initial, isApprovalGate := true },
    { id := 2, code := "archive", kind := .terminal }]
  transitions := [
    { id := 1, fromStateId := 1, toStateId := 2, action := .return,
      requiredPermission := some "desk.chief" },
    { id := 2, fromStateId := 1, toStateId := 2, action := .return, sortOrder := 1,
      requiredPermission := some "desk.clerk" }]

def desk : Published String := deskDraft.publish rfl rfl (by decide) (by decide)

def deskRun : Instance :=
  runFrom desk.toVersion { id := 1, code := "desk", kind := .initial, isApprovalGate := true } {} 0
    []

def deskDirectory (permission : String) : Directory where
  grants := [{ userId := 7, permission := permission, orgUnitId := none }]

/-- The clerk is offered a return that the executor refuses. -/
theorem desk_offer_unsound :
    ¬ OfferSound (deskDirectory "desk.clerk") desk.toVersion deskRun 7 none := by
  intro h
  have hlisted : Action.return ∈
      availableActions (deskDirectory "desk.clerk") desk.toVersion deskRun 7 := by decide +kernel
  obtain ⟨e, inst', hex⟩ := h .return hlisted
    { action := .return, actorUserId := 7, comment := some "incomplete" } rfl rfl rfl
    ⟨by decide, rfl, .inl rfl⟩
  have hrefused : executeAction (deskDirectory "desk.clerk") desk.toVersion deskRun
      { action := .return, actorUserId := 7, comment := some "incomplete" } =
      .error notAuthorized := by decide +kernel
  rw [hrefused] at hex
  cases hex

/-- The desk's one state that is not terminal. -/
def deskGate : State String := { id := 1, code := "desk", kind := .initial, isApprovalGate := true }

/-- The chief holds the first permission, and the clerk's is not asked for. -/
theorem consistent_desk :
    Consistent (deskDirectory "desk.chief") desk.toVersion deskRun deskGate 7 0 := by
  have hchief : Holds (deskDirectory "desk.chief") desk.toVersion deskRun 7 0
      (some "desk.chief") := by
    intro perm hperm
    obtain rfl := Option.some.inj hperm
    exact .inl (by decide +kernel)
  have hreturns : openRoutes desk.toVersion deskRun deskGate .return = deskDraft.transitions := by
    decide +kernel
  have hnone : ∀ a, a ≠ .return → openRoutes desk.toVersion deskRun deskGate a = [] := by
    intro a ha
    cases a <;> first | exact absurd rfl ha | decide +kernel
  constructor
  · intro hempty
    cases hempty
  · rintro - a (rfl | rfl)
    · rw [hreturns]
      exact fun _ _ _ => hchief
    · rw [hnone .reject (by decide)]
      trivial
  · intro _ a _ hret _
    rw [hnone a hret]
    trivial

/-- The chief's offer is sound. -/
theorem desk_offer_sound : OfferSound (deskDirectory "desk.chief") desk.toVersion deskRun 7 none := by
  refine (offerSound_iff_permissionsAgree desk _ rfl {} 0 [] _ 7 none).2 ?_
  intro current hstate _
  have hdesk : desk.toVersion.state? deskRun.currentStateId = some deskGate := by decide +kernel
  obtain rfl := Option.some.inj (hdesk.symm.trans hstate)
  exact consistent_desk

end OfficeConnect.Workflow
