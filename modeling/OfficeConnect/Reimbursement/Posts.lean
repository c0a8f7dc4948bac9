import OfficeConnect.Reimbursement.Standing

/-!
# Posts

Where a claim stands and who holds it: its status, link and holder columns, and the originator and
unit of the workflow instances.  A returning call posts a new draft, drops one, or mirrors the state
an engine run led to with the holder it resolves there.
-/

namespace OfficeConnect.Reimbursement

open Lib Workflow

/-! ## The abstract state -/

structure Post where
  kind : Kind
  status : Status
  link : Option ℕ
  holderKind : Option HolderKind
  holderId : Option ℕ
  holderSince : Option Time
  nextAction : Option String
deriving DecidableEq, Repr

def Claim.post (c : Claim) : Post :=
  { kind := c.kind
    status := c.status
    link := c.workflowInstanceId
    holderKind := c.holderKind
    holderId := c.holderId
    holderSince := c.holderSince
    nextAction := c.nextAction }

/-- The originator and the unit of an instance. -/
def scope (inst : Instance) : Option ℕ × Option ℕ := (inst.originatorUserId, inst.orgUnitId)

def Store.posts (σ : Store) : List Post := σ.claims.map Claim.post

def Store.scopes (σ : Store) : List (Option ℕ × Option ℕ) := σ.instances.map scope

/-- The post in a state. -/
def Post.mirror (dest : State Status) (holder : Option HolderKind × Option ℕ) (now : Time)
    (p : Post) : Post :=
  { p with
    status := dest.code
    holderKind := holder.1
    holderId := holder.2
    holderSince := if holder.1 = none then none else some now
    nextAction := (vocabulary p.kind).nextAction? dest.code }

/-- The post of a dropped draft. -/
def Post.drop (p : Post) : Post :=
  { p with
    status := .cancelled
    holderKind := none
    holderId := none
    holderSince := none
    nextAction := none }

/-! ## What a call does to it -/

/-- The posts stay, or one shows a new state of its claim's instance and the holder resolved there. -/
def Reposted (env : Env) (i : ℕ) (kind : Kind) (inst : Instance) (posts posts' : List Post) : Prop :=
  posts' = posts ∨ ∃ (reader : Claim) (dest : State Status) (holder : Option HolderKind × Option ℕ)
    (now : Time), reader.kind = kind ∧ (∃ id, state? id = some dest) ∧
      resolveHolder env reader inst dest = .ok holder ∧
      posts' = posts.modify i (Post.mirror dest holder now)

/-- The engine ran on the instance of a claim. -/
def Moved (env : Env) (i : ℕ) (posts : List Post) (scopes : List (Option ℕ × Option ℕ))
    (posts' : List Post) : Prop :=
  ∃ p j inst, posts[i]? = some p ∧ p.link = some j ∧ scopes[j]? = some (scope inst) ∧
    Reposted env i p.kind inst posts posts'

/-- What a returning call does to the posts and the scopes. -/
inductive Posting (c : Call) (σ : Store) : List Post → List (Option ℕ × Option ℕ) → Prop
  | kept : Posting c σ σ.posts σ.scopes
  | filed (p : Post) (hstatus : p.status = .draft) (hlink : p.link = none)
      (hkind : p.holderKind = some .user) (hid : p.holderId ≠ none) :
      Posting c σ (σ.posts ++ [p]) σ.scopes
  | dropped (i : ℕ) : Posting c σ (σ.posts.modify i Post.drop) σ.scopes
  | acted (r : ActionRequest) (posts : List Post) (hr : c.action? = some r)
      (hmoved : Moved c.env r.claimId σ.posts σ.scopes posts) : Posting c σ posts σ.scopes
  | submitted (r : Submit) (claim : Claim) (unit : ℕ) (inst : Instance) (posts : List Post)
      (hr : c.op = .submit r) (hclaim : σ.claims[r.claimId]? = some claim)
      (hlink : claim.workflowInstanceId = none)
      (hunit : staffUnit c.env claim.claimantId = some unit)
      (hscope : scope inst = (some r.actorUserId, some unit))
      (hposts : Reposted c.env r.claimId claim.kind inst
        (σ.posts.modify r.claimId fun p => { p with link := some σ.scopes.length }) posts) :
      Posting c σ posts (σ.scopes ++ [scope inst])

/-- The call posts. -/
def Posts (c : Call) (σ σ' : Store) : Prop := Posting c σ σ'.posts σ'.scopes

section

variable {env : Env} {σ σ₁ σ' : Store} {i j : ℕ} {claim : Claim} {now : Time} {c : Call}

theorem posts_of_eq (hp : σ'.posts = σ.posts) (hs : σ'.scopes = σ.scopes) : Posts c σ σ' := by
  rw [Posts, hp, hs]
  exact .kept

theorem posts_getElem? (h : σ.claims[i]? = some claim) : σ.posts[i]? = some claim.post := by
  simp [Store.posts, h]

theorem exists_scope {s : Option ℕ × Option ℕ} (h : σ.scopes[j]? = some s) :
    ∃ inst, σ.instances[j]? = some inst ∧ scope inst = s := by
  simpa [Store.scopes] using h

theorem posts_setClaim (f : Claim → Claim) (hf : ∀ c, (f c).post = c.post) :
    (σ.setClaim i f).posts = σ.posts := map_modify_of_eq hf _ _

theorem scopes_modify {instances : List Instance} {f : Instance → Instance}
    (hf : ∀ inst, scope (f inst) = scope inst) :
    (instances.modify j f).map scope = instances.map scope := map_modify_of_eq hf _ _

/-! ## The lifecycle calls -/

theorem computeClaimTotals_posts {other : Option ℚ}
    (h : computeClaimTotals env σ i other = .ok σ') :
    σ'.posts = σ.posts ∧ σ'.scopes = σ.scopes := by
  obtain ⟨claim, result, -, -, rfl⟩ := computeClaimTotals_eq_ok h
  refine ⟨map_modify_of_eq (fun c => ?_) _ _, rfl⟩
  rfl

theorem executeAction_scope {v : Version Status} {inst inst' : Instance} {r : Request} {e : Event}
    {dir : Directory} (h : executeAction dir v inst r = .ok (e, inst')) :
    scope inst' = scope inst := by
  rcases executeAction_cases h with ⟨-, rfl⟩ | ⟨current, t, out, entered, hfired, -⟩
  · rfl
  · rw [hfired.result]
    rfl

theorem Performed.reposted {r : Request} {inst inst' : Instance} {v : Published Status} {e : Event}
    {dest : State Status} {returns : List ReturnEvent}
    (h : Performed env σ i j r claim inst v e inst' dest returns σ') :
    Reposted env i claim.kind inst' σ.posts σ'.posts ∧ scope inst' = scope inst ∧
      σ'.scopes = σ.scopes := by
  have hscope := executeAction_scope h.exec
  have hstate : ∃ id, state? id = some dest := by
    obtain ⟨id, -, hid⟩ := eventState_eq_ok.1 h.target
    exact ⟨id, hid⟩
  obtain ⟨claims, history, hmirror, rfl⟩ := h.result
  refine ⟨?_, hscope, ?_⟩
  · rcases hmirror with ⟨-, rfl, -⟩ | ⟨-, holder, hholder, rfl, -, -⟩
    · exact .inl rfl
    · refine .inr ⟨claim, dest, holder, env.at r.now, rfl, hstate, hholder, ?_⟩
      refine map_modify (fun c => ?_) _ _
      rfl
  · have hstamped : scope (stamped claim.kind dest (slaDue env (env.at r.now)) inst') =
        scope inst := by
      rw [← hscope]
      exact Prod.ext (quiet_stamped ..).originator (quiet_stamped ..).orgUnit
    exact map_modify_of_eq_at h.live hstamped

theorem claimAction_moved {r : ActionRequest} (h : claimAction env r σ = .ok σ') :
    Moved env r.claimId σ.posts σ.scopes σ'.posts ∧ σ'.scopes = σ.scopes := by
  obtain ⟨claim, j, inst, σ₁, priced, amount, v, e, inst', dest, returns, ha⟩ := claimAction_acted h
  obtain ⟨hreposted, hscope, hscopes⟩ := ha.performed.reposted
  have hkind : priced.kind = claim.kind := congrArg Spine.kind ha.spine
  have hscopes₁ : σ₁.scopes = σ.scopes := by
    unfold Store.scopes
    rw [ha.instances]
    exact map_modify_of_eq_at ha.live rfl
  have hposts₁ : σ₁.posts = σ.posts := by
    rcases prepareAction_eq_ok.1 ha.prepared with ⟨-, hrefresh⟩ | ⟨-, rfl, -⟩
    · obtain ⟨σ₂, claim₂, htotals, -, rfl⟩ := refreshForResubmit_eq_ok hrefresh
      exact (computeClaimTotals_posts htotals).1
    · rfl
  rw [hposts₁, hkind] at hreposted
  refine ⟨⟨claim.post, j, inst', posts_getElem? ha.row, ha.link, ?_, hreposted⟩,
    hscopes.trans hscopes₁⟩
  rw [hscope]
  simp only [Store.scopes, List.getElem?_map, ha.live, Option.map_some]
  rfl

theorem posts_submitClaim {r : Submit} (hc : c.op = .submit r)
    (h : submitClaim c.env r σ = .ok σ') : Posts c σ σ' := by
  obtain ⟨claim, priced, packet, inst, v, e, inst', dest, entered, hs⟩ := submitClaim_eq_ok h
  obtain ⟨unit, hunit, horiginator, horgUnit⟩ := hs.routed
  obtain ⟨_, hallowed⟩ := hs.allowed
  obtain ⟨σ₁, htotals, hpriced, hpacket⟩ := preparePacket_eq_ok hs.prepared
  change packet = _ at hpacket
  obtain ⟨hposts₁, hscopes₁⟩ := computeClaimTotals_posts htotals
  have hposts₂ : packet.posts = σ.posts := by
    rw [hpacket]
    exact hposts₁
  have hscopes₂ : packet.scopes = σ.scopes := by
    rw [hpacket]
    exact hscopes₁
  have hlength : packet.instances.length = σ.scopes.length := by
    rw [← hscopes₂, Store.scopes, List.length_map]
  have hkind : priced.kind = claim.kind := by
    have hrow : σ₁.posts[r.claimId]? = some priced.post := posts_getElem? hpriced
    rw [hposts₁, posts_getElem? hs.row] at hrow
    exact (congrArg Post.kind (Option.some.inj hrow)).symm
  have hentered : entered.posts =
      σ.posts.modify r.claimId fun p => { p with link := some σ.scopes.length } := by
    rw [hs.store, ← hposts₂, ← hlength]
    refine map_modify (fun c => ?_) _ _
    rfl
  have henteredScopes : entered.scopes = σ.scopes ++ [scope inst] := by
    rw [hs.store, ← hscopes₂]
    simp [Store.scopes]
  obtain ⟨hreposted, hscope, hscopes⟩ := hs.performed.reposted
  have hinst : scope inst' = (some r.actorUserId, some unit) :=
    hscope.trans (Prod.ext horiginator horgUnit)
  rw [hentered] at hreposted
  rw [Posts, hscopes, henteredScopes, ← hscope]
  exact .submitted r claim unit inst' _ hc hs.row (submittable_eq_ok hallowed).1 hunit hinst
    (hkind ▸ hreposted)

/-! ## Filing and dropping -/

theorem posts_filed (kind : Kind) (staff : Staff) (actor : ℕ) (now : Time)
    (hposts : σ'.posts = σ.posts ++ [(draftClaim kind staff actor now).post])
    (hscopes : σ'.scopes = σ.scopes) : Posts c σ σ' := by
  rw [Posts, hposts, hscopes]
  exact .filed _ rfl rfl rfl (Option.some_ne_none actor)

theorem posts_createDraft {actor : ℕ} {kind : Kind} {r : ℕ × Store}
    (h : createDraftClaim env σ actor kind now = .ok r) : Posts c σ r.2 := by
  obtain ⟨staff, rfl⟩ := createDraftClaim_eq_ok h
  refine posts_filed kind staff actor now ?_ rfl
  simp [Store.posts]

theorem posts_startLiquidation {r : StartLiquidation} (h : startLiquidation env r σ = .ok σ') :
    Posts c σ σ' := by
  simp only [startLiquidation, bind_eq_ok, found_eq_ok, refuse_eq_ok, onConflict_eq_ok,
    flushClaims_eq_ok, pure_eq_ok] at h
  obtain ⟨a, -, -, -, actor, -, -, -, -, -, ⟨id, σ₁⟩, hdraft, _, ⟨rfl, -⟩, rfl⟩ := h
  obtain ⟨staff, hr⟩ := createDraftClaim_eq_ok hdraft
  obtain ⟨rfl, rfl⟩ := Prod.mk.inj hr
  refine posts_filed .liquidation staff r.actorUserId (env.at r.now) ?_ rfl
  refine (congrArg (List.map _) (modify_length_append _ _ _)).trans ?_
  simp [Store.posts, Claim.post]

theorem posts_spawn {r : Spawn} (h : spawnReimbursement env r σ = .ok σ') : Posts c σ σ' := by
  simp only [spawnReimbursement, bind_eq_ok, onConflict_eq_ok, flushClaims_eq_ok] at h
  obtain ⟨⟨source, advanceId⟩, -, ⟨id, σ₁⟩, hdraft, σ₂, ⟨hσ₂, -⟩, htotals⟩ := h
  obtain ⟨staff, hr⟩ := createDraftClaim_eq_ok hdraft
  obtain ⟨rfl, rfl⟩ := Prod.mk.inj hr
  obtain ⟨hposts, hscopes⟩ := computeClaimTotals_posts htotals
  refine posts_filed .reimbursement staff r.actorUserId (env.at r.now) ?_ (hscopes.trans ?_)
  · rw [hposts, hσ₂]
    refine (congrArg (List.map _) (modify_length_append _ _ _)).trans ?_
    simp [Store.posts, Claim.post]
  · rw [hσ₂]
    rfl

theorem posts_cancelDraft {r : CancelDraft} (h : cancelDraftClaim env r σ = .ok σ') :
    Posts c σ σ' := by
  simp only [cancelDraftClaim, bind_eq_ok, flushClaims_eq_ok] at h
  obtain ⟨claim, -, -, -, -, -, -, -, -, -, rfl, -⟩ := h
  have hdrop : Posting c σ (σ.posts.modify r.claimId Post.drop) σ.scopes := .dropped r.claimId
  unfold Posts
  convert hdrop using 1
  · refine map_modify (fun c => ?_) _ _
    rfl
  · rfl

/-! ## Every call -/

theorem posts_recordSettlement {r : Settle} (hc : c.op = .settle r)
    (h : recordSettlement c.env r σ = .ok σ') : Posts c σ σ' := by
  obtain ⟨k, t, -, hact⟩ := recordSettlement_eq_ok.1 h
  obtain ⟨hmoved, hscopes⟩ := claimAction_moved hact
  have hkept : σ'.scopes = σ.scopes := hscopes
  rw [Posts, hkept]
  exact .acted (r.approval c.env) _ (by simp [Call.action?, hc]) hmoved

theorem posts_recordPayout {r : Payout} (hc : c.op = .payout r)
    (h : recordPayout c.env r σ = .ok σ') : Posts c σ σ' := by
  obtain ⟨reference, day, σ₁, hclaims, hinstances, -, -, hact⟩ := recordPayout_eq_ok h
  obtain ⟨hmoved, hscopes⟩ := claimAction_moved hact
  have hposts₁ : σ₁.posts = σ.posts := by
    unfold Store.posts
    rw [hclaims]
    refine map_modify_of_eq (fun c => ?_) _ _
    rfl
  have hscopes₁ : σ₁.scopes = σ.scopes := by rw [Store.scopes, hinstances, Store.scopes]
  rw [hposts₁, hscopes₁] at hmoved
  rw [Posts, hscopes, hscopes₁]
  exact .acted (r.approval c.env) _ (by simp [Call.action?, hc]) hmoved

theorem posts_updateCashAdvance {r : UpdateAdvance} (h : updateCashAdvance c.env r σ = .ok σ') :
    Posts c σ σ' := by
  simp only [updateCashAdvance, bind_eq_ok, found_eq_ok] at h
  obtain ⟨a, -, a', -, σ₁, hflush, h⟩ := h
  have hσ₁ : σ₁.posts = σ.posts ∧ σ₁.scopes = σ.scopes := by
    simp only [flushAdvances, bind_eq_ok, refuse_eq_ok, not_not, pure_eq_ok] at hflush
    obtain ⟨-, -, rfl⟩ := hflush
    exact ⟨rfl, rfl⟩
  split_ifs at h
  · obtain rfl := pure_eq_ok.1 h
    exact posts_of_eq hσ₁.1 hσ₁.2
  · obtain rfl := pure_eq_ok.1 h
    refine posts_of_eq ?_ hσ₁.2
    rw [← hσ₁.1]
    simp only [Store.posts, remirrorDeadline, List.map_map]
    refine List.map_congr_left fun c _ => ?_
    simp only [Function.comp_apply]
    split_ifs <;> rfl

/-- Every returning call posts. -/
theorem Call.step_posts (h : c.step σ = .ok σ') : Posts c σ σ' := by
  obtain ⟨env, op⟩ := c
  cases op with
  | createDraft actor kind now =>
      obtain ⟨r, hr, rfl⟩ := map_eq_ok.1 h
      exact posts_createDraft hr
  | editDraft r =>
      simp only [Call.step, updateDraftFields, bind_eq_ok, pure_eq_ok] at h
      obtain ⟨claim, -, _, -, _, -, _, -, rfl⟩ := h
      exact posts_of_eq (posts_setClaim _ fun _ => rfl) rfl
  | replaceLegs r =>
      simp only [Call.step, replaceLegs, bind_eq_ok, pure_eq_ok] at h
      obtain ⟨claim, -, legs, -, rfl⟩ := h
      exact posts_of_eq (posts_setClaim _ fun _ => rfl) rfl
  | recomputeTotals claimId actor =>
      simp only [Call.step, recomputeTotals, bind_eq_ok] at h
      obtain ⟨claim, -, htotals⟩ := h
      exact posts_of_eq (computeClaimTotals_posts htotals).1 (computeClaimTotals_posts htotals).2
  | attachEvidence claimId catalogId actor =>
      simp only [Call.step, attachEvidence, bind_eq_ok, pure_eq_ok] at h
      obtain ⟨_, -, _, -, _, -, rfl⟩ := h
      exact .kept
  | detachEvidence claimId catalogId actor =>
      simp only [Call.step, detachEvidence, bind_eq_ok, pure_eq_ok] at h
      obtain ⟨_, -, _, -, rfl⟩ := h
      exact .kept
  | markGenerated claimId code =>
      simp only [Call.step, markGenerated, bind_eq_ok, pure_eq_ok] at h
      obtain ⟨_, -, _, -, _, -, rfl⟩ := h
      exact .kept
  | cancelDraft r => exact posts_cancelDraft h
  | submit r => exact posts_submitClaim rfl h
  | act r =>
      obtain ⟨hmoved, hscopes⟩ := claimAction_moved h
      rw [Posts, hscopes]
      exact .acted r _ rfl hmoved
  | createAdvance r =>
      simp only [Call.step, createCashAdvance, bind_eq_ok, onConflict_eq_ok, flushAdvances,
        refuse_eq_ok, pure_eq_ok] at h
      obtain ⟨_, -, _, -, _, -, -, -, rfl⟩ := h
      exact .kept
  | updateAdvance r => exact posts_updateCashAdvance h
  | markOverdue advanceId =>
      obtain rfl := Except.ok.inj h
      exact .kept
  | startLiquidation r => exact posts_startLiquidation h
  | settle r => exact posts_recordSettlement rfl h
  | payout r => exact posts_recordPayout rfl h
  | relay r =>
      simp only [Call.step, recordExternalEvent, bind_eq_ok, pure_eq_ok] at h
      obtain ⟨_, -, _, -, claim, -, _, -, rfl⟩ := h
      exact .kept
  | spawn r => exact posts_spawn h
  | sweep now instanceId picked =>
      obtain rfl := Except.ok.inj h
      exact posts_of_eq rfl (scopes_modify fun _ => rfl)
  | remind instanceId stepId level revisionNo =>
      obtain rfl := Except.ok.inj h
      exact posts_of_eq rfl (scopes_modify fun _ => rfl)

end

end OfficeConnect.Reimbursement
