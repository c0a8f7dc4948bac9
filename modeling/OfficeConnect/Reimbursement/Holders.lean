import OfficeConnect.Reimbursement.Lockstep
import OfficeConnect.Reimbursement.Posts

/-!
# One holder, always

Every claim that is still open has one holder: its claimant, FMS, or an approver of the gate it is
at.  The approver is picked by the distance of their grant's unit on the ancestry of the claim's
unit.  The distance is kept in a dictionary over that ancestry, so a unit that the walk meets twice,
which is what a loop in the org tables does, is placed where it was met last.
-/

namespace OfficeConnect.Reimbursement

open Lib Workflow

/-! ## The holder of a gate -/

/-- A state where somebody of the bureau signs. -/
structure InternalGate (kind : Kind) (gate : State Status) : Prop where
  state : gate ∈ (chain kind).states
  signs : gate.isApprovalGate = true
  inside : gate.code ∉ (vocabulary kind).external

/-- An active user with a valid grant of the gate's permission at a unit on the ancestry, not the
originator where makers may not check. -/
structure Eligible (dir : Directory) (gate : State Status) (s : Option ℕ × Option ℕ)
    (user unit : ℕ) : Prop where
  covers : unit ∈ dir.ancestorsOrSelf s.2
  active : ∃ u ∈ dir.users, u.id = user ∧ u.isActive
  granted : ∃ g ∈ dir.grants, g.userId = user ∧ gate.requiredPermission = some g.permission ∧
    g.orgUnitId = some unit ∧ Directory.Grant.validAt g dir.utcNow
  segregated : ¬ (gate.enforceSegregation ∧ s.1 = some user)

/-- The user is eligible, and nobody is at a strictly nearer unit. -/
def Nearest (dir : Directory) (gate : State Status) (s : Option ℕ × Option ℕ) (user : ℕ) : Prop :=
  ∃ unit, Eligible dir gate s user unit ∧ ∀ other unit', Eligible dir gate s other unit' →
    (dir.ancestorsOrSelf s.2).idxOf unit ≤ (dir.ancestorsOrSelf s.2).idxOf unit'

section

variable {env : Env} {dir : Directory} {inst : Instance} {gate dest : State Status} {user rank : ℕ}
  {claim : Claim} {holder : Option HolderKind × Option ℕ}

/-- Where no unit repeats, the last place of a unit is its place. -/
theorem proximity_eq_idxOf {ancestry : List ℕ} {unit : ℕ} (hnodup : ancestry.Nodup)
    (hunit : unit ∈ ancestry) : proximity ancestry unit = ancestry.idxOf unit := by
  have hlt : ancestry.idxOf unit < ancestry.length := List.idxOf_lt_length_iff.2 hunit
  have hback : ancestry.reverse.idxOf unit = ancestry.length - 1 - ancestry.idxOf unit := by
    have hindex : ancestry.length - 1 - ancestry.idxOf unit < ancestry.reverse.length := by
      rw [List.length_reverse]
      omega
    have hget : ancestry.reverse[ancestry.length - 1 - ancestry.idxOf unit] = unit := by
      rw [List.getElem_reverse]
      have hself : ancestry.length - 1 - (ancestry.length - 1 - ancestry.idxOf unit) =
          ancestry.idxOf unit := by omega
      simp only [hself, List.getElem_idxOf]
    have := (List.nodup_reverse.2 hnodup).idxOf_getElem _ hindex
    rwa [hget] at this
  rw [proximity, hback]
  omega

theorem mem_permissionHolders {perm : String} {target : Option ℕ} {unit : ℕ} :
    (user, some unit) ∈ dir.permissionHolders perm target ↔
      unit ∈ dir.ancestorsOrSelf target ∧ (∃ u ∈ dir.users, u.id = user ∧ u.isActive) ∧
        ∃ g ∈ dir.grants, g.userId = user ∧ g.permission = perm ∧ g.orgUnitId = some unit ∧
          Directory.Grant.validAt g dir.utcNow := by
  simp only [Directory.permissionHolders, List.mem_dedup, List.mem_map, List.mem_filter,
    decide_eq_true_eq, List.any_eq_true, Prod.mk.injEq]
  constructor
  · rintro ⟨g, ⟨hg, hperm, hvalid, hactive, hscope⟩, rfl, hunit⟩
    rcases hscope with hnone | ⟨covered, hcovered, heq⟩
    · exact nomatch hnone.symm.trans hunit
    · obtain rfl := Option.some.inj (heq.symm.trans hunit)
      exact ⟨hcovered, hactive, g, hg, rfl, hperm, hunit, hvalid⟩
  · rintro ⟨hcovered, hactive, g, hg, rfl, hperm, hunit, hvalid⟩
    exact ⟨g, ⟨hg, hperm, hvalid, hactive, .inr ⟨unit, hcovered, hunit⟩⟩, rfl, hunit⟩

/-- The candidates are the eligible users, each with the place of the grant's unit. -/
theorem mem_holderCandidates : (rank, user) ∈ holderCandidates env inst gate ↔
    ∃ unit, Eligible env.directory gate (scope inst) user unit ∧
      rank = proximity (env.directory.ancestorsOrSelf inst.orgUnitId) unit := by
  unfold holderCandidates
  cases hperm : gate.requiredPermission with
  | none =>
      simp only [List.not_mem_nil, false_iff]
      rintro ⟨unit, ⟨-, -, ⟨g, -, -, hg, -⟩, -⟩, -⟩
      exact nomatch hperm.symm.trans hg
  | some perm =>
      simp only [List.mem_filterMap, Prod.exists, Option.bind_eq_some_iff]
      constructor
      · rintro ⟨u, _, hholder, unit, rfl, hif⟩
        split_ifs at hif with hok
        obtain ⟨rfl, rfl⟩ := Prod.mk.inj (Option.some.inj hif)
        obtain ⟨hcovered, hactive, g, hg, huser, hgperm, hunit, hvalid⟩ :=
          mem_permissionHolders.1 hholder
        exact ⟨unit, ⟨hcovered, hactive, ⟨g, hg, huser, hgperm ▸ hperm, hunit, hvalid⟩, hok.2⟩, rfl⟩
      · rintro ⟨unit, ⟨hcovered, hactive, ⟨g, hg, huser, hgperm, hunit, hvalid⟩, hseg⟩, rfl⟩
        have hsame : g.permission = perm := Option.some.inj (hgperm.symm.trans hperm)
        refine ⟨user, some unit, mem_permissionHolders.2
          ⟨hcovered, hactive, g, hg, huser, hsame, hunit, hvalid⟩, unit, rfl, ?_⟩
        rw [if_pos ⟨hcovered, hseg⟩]

theorem head_le_of_mem {candidates : List (ℕ × ℕ)} {first : ℕ × ℕ} {others : List (ℕ × ℕ)}
    (h : candidates.insertionSort (fun a b => a.1 < b.1 ∨ a.1 = b.1 ∧ a.2 ≤ b.2) =
      first :: others) : first ∈ candidates ∧ ∀ a ∈ candidates, first.1 ≤ a.1 := by
  have htotal : Std.Total fun a b : ℕ × ℕ => a.1 < b.1 ∨ a.1 = b.1 ∧ a.2 ≤ b.2 :=
    ⟨fun a b => by omega⟩
  have htrans : IsTrans (ℕ × ℕ) fun a b => a.1 < b.1 ∨ a.1 = b.1 ∧ a.2 ≤ b.2 :=
    ⟨fun a b c => by omega⟩
  have hsorted := List.pairwise_insertionSort
    (fun a b : ℕ × ℕ => a.1 < b.1 ∨ a.1 = b.1 ∧ a.2 ≤ b.2) candidates
  have hmem : ∀ a, a ∈ first :: others ↔ a ∈ candidates := by
    intro a
    rw [← h]
    exact List.mem_insertionSort _
  rw [h, List.pairwise_cons] at hsorted
  refine ⟨(hmem first).1 List.mem_cons_self, fun a ha => ?_⟩
  rcases List.mem_cons.1 ((hmem a).2 ha) with rfl | ha
  · exact le_rfl
  · have := hsorted.1 a ha
    omega

/-- At a gate inside the bureau the first candidate holds the claim. -/
theorem resolveHolder_gate (hgate : dest.kind ≠ .terminal)
    (hclaimant : dest.code ∉ (vocabulary claim.kind).claimant)
    (hinside : dest.code ∉ (vocabulary claim.kind).external)
    (h : resolveHolder env claim inst dest = .ok holder) :
    ∃ user unit, holder = (some .user, some user) ∧
      Eligible env.directory dest (scope inst) user unit ∧
      ∀ other unit', Eligible env.directory dest (scope inst) other unit' →
        proximity (env.directory.ancestorsOrSelf inst.orgUnitId) unit ≤
          proximity (env.directory.ancestorsOrSelf inst.orgUnitId) unit' := by
  simp only [resolveHolder, if_neg hgate, if_neg hclaimant, if_neg hinside] at h
  split at h
  · cases h
  · next rank user others hsorted =>
      obtain ⟨hfirst, hleast⟩ := head_le_of_mem hsorted
      obtain ⟨unit, heligible, rfl⟩ := mem_holderCandidates.1 hfirst
      refine ⟨user, unit, (Except.ok.inj h).symm, heligible, fun other unit' hother => ?_⟩
      exact hleast _ (mem_holderCandidates.2 ⟨unit', hother, rfl⟩)

/-- Where no unit of the ancestry repeats, the first candidate is the nearest. -/
theorem nearest_of_proximity {s : Option ℕ × Option ℕ} {unit : ℕ}
    (hnodup : (dir.ancestorsOrSelf s.2).Nodup) (h : Eligible dir gate s user unit)
    (hleast : ∀ other unit', Eligible dir gate s other unit' →
      proximity (dir.ancestorsOrSelf s.2) unit ≤ proximity (dir.ancestorsOrSelf s.2) unit') :
    Nearest dir gate s user := by
  refine ⟨unit, h, fun other unit' hother => ?_⟩
  have := hleast other unit' hother
  rwa [proximity_eq_idxOf hnodup h.covers, proximity_eq_idxOf hnodup hother.covers] at this

/-! ## The holder columns -/

def closedStatuses : List Status := [.paidClosed, .settled, .cancelled]

/-- The holder columns go with the status. -/
structure Post.Held (p : Post) : Prop where
  closed : p.status ∈ closedStatuses →
    p.holderKind = none ∧ p.holderId = none ∧ p.holderSince = none ∧ p.nextAction = none
  external : p.status = .handedToFms → p.holderKind = some .externalFms ∧ p.holderId = none
  inside : p.status ∉ closedStatuses → p.status ≠ .handedToFms →
    p.holderKind = some .user ∧ p.holderId ≠ none

theorem state?_terminal {id : ℕ} (h : state? id = some dest) :
    dest.kind = .terminal ↔ dest.code ∈ closedStatuses := by
  have hall : ∀ s ∈ claimChain.states ++ liquidationChain.states,
      s.kind = .terminal ↔ s.code ∈ closedStatuses := by decide
  exact hall dest (List.mem_of_find?_eq_some h)

theorem nextAction?_closed (kind : Kind) :
    ∀ s ∈ closedStatuses, (vocabulary kind).nextAction? s = none := by
  cases kind <;> decide

theorem claimant_vocabulary (kind : Kind) : (vocabulary kind).claimant = [.draft, .returned] := by
  cases kind <;> rfl

/-- The resolved holder goes with the state, when the instance has an originator. -/
theorem held_mirror {id : ℕ} {now : Time} (p : Post) (hstate : state? id = some dest)
    (horiginator : inst.originatorUserId ≠ none)
    (h : resolveHolder env claim inst dest = .ok holder) : (p.mirror dest holder now).Held := by
  by_cases hterminal : dest.kind = .terminal
  · have hclosed := (state?_terminal hstate).1 hterminal
    rw [resolveHolder, if_pos hterminal] at h
    obtain rfl := Except.ok.inj h
    refine ⟨fun _ => ⟨rfl, rfl, rfl, nextAction?_closed p.kind _ hclosed⟩, fun hfms => ?_,
      fun hopen => absurd hclosed hopen⟩
    change dest.code = .handedToFms at hfms
    rw [hfms] at hclosed
    exact absurd hclosed (by decide)
  · have hopen : dest.code ∉ closedStatuses := mt (state?_terminal hstate).2 hterminal
    by_cases hclaimant : dest.code ∈ (vocabulary claim.kind).claimant
    · simp only [resolveHolder, if_neg hterminal, if_pos hclaimant] at h
      obtain rfl := Except.ok.inj h
      refine ⟨fun hclosed => absurd hclosed hopen, fun hfms => ?_, fun _ _ => ⟨rfl, ?_⟩⟩
      · change dest.code = .handedToFms at hfms
        rw [claimant_vocabulary, hfms] at hclaimant
        exact absurd hclaimant (by decide)
      · obtain ⟨maker, hmaker⟩ := Option.ne_none_iff_exists'.1 horiginator
        simp only [Post.mirror, hmaker]
        cases ownerUser env claim.claimantId <;> simp
    · by_cases hexternal : dest.code ∈ (vocabulary claim.kind).external
      · simp only [resolveHolder, if_neg hterminal, if_neg hclaimant, if_pos hexternal] at h
        obtain rfl := Except.ok.inj h
        rw [external_vocabulary, List.mem_singleton] at hexternal
        exact ⟨fun hclosed => absurd hclosed hopen, fun _ => ⟨rfl, rfl⟩,
          fun _ hne => absurd hexternal hne⟩
      · obtain ⟨user, unit, rfl, -⟩ := resolveHolder_gate hterminal hclaimant hexternal h
        refine ⟨fun hclosed => absurd hclosed hopen, fun hfms => ?_,
          fun _ _ => ⟨rfl, Option.some_ne_none user⟩⟩
        change dest.code = .handedToFms at hfms
        rw [external_vocabulary, List.mem_singleton] at hexternal
        exact absurd hfms hexternal

end

/-! ## What a call keeps -/

/-- Every post has the holder its status asks for, and every instance has an originator and a unit. -/
structure Manned (σ : Store) : Prop where
  posts : ∀ p ∈ σ.posts, p.Held
  scopes : ∀ s ∈ σ.scopes, s.1 ≠ none ∧ s.2 ≠ none

section

variable {c : Call} {env : Env} {σ σ' : Store} {i k : ℕ} {kind : Kind} {inst : Instance}
  {posts posts' : List Post} {p p' : Post}

theorem held_of_mem_modify {f : Post → Post} (hposts : ∀ p ∈ posts, p.Held)
    (hf : ∀ p ∈ posts, (f p).Held) (hp : p ∈ posts.modify k f) : p.Held := by
  obtain ⟨n, hn⟩ := List.mem_iff_getElem?.1 hp
  rcases getElem?_modify_eq_some hn with ⟨-, q, hq, rfl⟩ | ⟨-, hq⟩
  · exact hf q (List.mem_of_getElem? hq)
  · exact hposts p (List.mem_of_getElem? hq)

theorem Reposted.held (h : Reposted env k kind inst posts posts') (hposts : ∀ p ∈ posts, p.Held)
    (horiginator : inst.originatorUserId ≠ none) : ∀ p ∈ posts', p.Held := by
  rcases h with rfl | ⟨reader, dest, holder, now, -, ⟨id, hid⟩, hholder, rfl⟩
  · exact hposts
  · intro p hp
    exact held_of_mem_modify hposts (fun q _ => held_mirror q hid horiginator hholder) hp

theorem held_filed (hstatus : p.status = .draft) (hkind : p.holderKind = some .user)
    (hid : p.holderId ≠ none) : p.Held := by
  refine ⟨fun hclosed => ?_, fun hfms => ?_, fun _ _ => ⟨hkind, hid⟩⟩
  · rw [hstatus] at hclosed
    exact absurd hclosed (by decide)
  · exact nomatch hstatus.symm.trans hfms

theorem held_drop (p : Post) : p.drop.Held := by
  refine ⟨fun _ => ⟨rfl, rfl, rfl, rfl⟩, fun hfms => ?_, fun hopen => ?_⟩
  · cases hfms
  · exact absurd (by decide : Status.cancelled ∈ closedStatuses) hopen

/-- A link says nothing of the holder. -/
theorem Post.Held.link (h : p.Held) (link : Option ℕ) : { p with link := link }.Held :=
  ⟨h.closed, h.external, h.inside⟩

theorem Posts.manned (h : Posts c σ σ') (hσ : Manned σ) : Manned σ' := by
  have hmanned : ∀ posts scopes, Posting c σ posts scopes →
      (∀ p ∈ posts, p.Held) ∧ ∀ s ∈ scopes, s.1 ≠ none ∧ s.2 ≠ none := by
    intro posts scopes hposting
    cases hposting with
    | kept => exact ⟨hσ.posts, hσ.scopes⟩
    | filed p hstatus hlink hkind hid =>
        refine ⟨fun q hq => ?_, hσ.scopes⟩
        rcases List.mem_append.1 hq with hq | hq
        · exact hσ.posts q hq
        · rw [List.mem_singleton.1 hq]
          exact held_filed hstatus hkind hid
    | dropped k =>
        exact ⟨fun q hq => held_of_mem_modify hσ.posts (fun q _ => held_drop q) hq, hσ.scopes⟩
    | acted r posts hr hmoved =>
        obtain ⟨p, j, inst, -, -, hscope, hreposted⟩ := hmoved
        have horiginator := (hσ.scopes _ (List.mem_of_getElem? hscope)).1
        exact ⟨hreposted.held hσ.posts horiginator, hσ.scopes⟩
    | submitted r claim unit inst posts hr hclaim hlink hunit hscope hreposted =>
        have horiginator : inst.originatorUserId = some r.actorUserId := congrArg Prod.fst hscope
        refine ⟨hreposted.held (fun q hq => ?_) (horiginator ▸ Option.some_ne_none _), ?_⟩
        · exact held_of_mem_modify hσ.posts (fun q hq => (hσ.posts q hq).link _) hq
        · intro s hs
          rcases List.mem_append.1 hs with hs | hs
          · exact hσ.scopes s hs
          · rw [List.mem_singleton.1 hs, hscope]
            exact ⟨Option.some_ne_none _, Option.some_ne_none _⟩
  obtain ⟨hposts, hscopes⟩ := hmanned _ _ h
  exact ⟨hposts, hscopes⟩

theorem manned_runStore (calls : List Call) : Manned (runStore calls) := by
  refine run_invariant (P := fun _ _ => True) (I := Manned)
    (fun σ c σ' _ hσ hok => (Call.step_posts hok).manned hσ) calls {} ⟨?_, ?_⟩ (conforms_true _ _)
  · simp [Store.posts]
  · simp [Store.scopes]

/-! ## Entering a gate -/

/-- The claim a call may move to a gate. -/
def Call.moves? (c : Call) : Option ℕ :=
  match c.op with
  | .submit r => some r.claimId
  | _ => c.action?.map (·.claimId)

/-- On the way up from the unit of the claim that moves, no unit is met twice. -/
def Unlooped (σ : Store) (c : Call) : Prop :=
  ∀ i ∈ c.moves?, ∀ claim ∈ σ.claims[i]?,
    (c.env.directory.ancestorsOrSelf (claimUnit c.env σ claim)).Nodup

instance (σ : Store) (c : Call) : Decidable (Unlooped σ c) :=
  inferInstanceAs (Decidable (∀ i ∈ c.moves?, ∀ claim ∈ σ.claims[i]?,
    (c.env.directory.ancestorsOrSelf (claimUnit c.env σ claim)).Nodup))

variable {before after : Claim} {gate dest : State Status}

theorem InternalGate.code_ne (h : InternalGate kind gate) : gate.code ≠ .handedToFms := by
  have := h.inside
  rwa [external_vocabulary, List.mem_singleton] at this

/-- A gate inside the bureau is the only state with its code, and not one the claimant holds. -/
theorem InternalGate.unique {id : ℕ} (h : InternalGate kind gate) (hstate : state? id = some dest)
    (hcode : dest.code = gate.code) :
    dest = gate ∧ gate.kind ≠ .terminal ∧ gate.code ∉ [.draft, .returned] ∧
      gate.code ≠ .cancelled := by
  have hall : ∀ k, ∀ g ∈ (chain k).states, g.isApprovalGate = true → g.code ≠ .handedToFms →
      (∀ s ∈ claimChain.states ++ liquidationChain.states, s.code = g.code → s = g) ∧
        g.kind ≠ .terminal ∧ g.code ∉ [Status.draft, .returned] ∧ g.code ≠ .cancelled := by
    intro k
    cases k <;> decide
  obtain ⟨hsame, hrest⟩ := hall kind gate h.state h.signs h.code_ne
  exact ⟨hsame dest (List.mem_of_find?_eq_some hstate) hcode, hrest⟩

/-- A post whose status changed is the one that was mirrored. -/
theorem Reposted.mirrored (h : Reposted env k kind inst posts posts') (hp : posts[i]? = some p)
    (hp' : posts'[i]? = some p') (hmoved : p'.status ≠ p.status) :
    i = k ∧ ∃ (reader : Claim) (dest : State Status) (holder : Option HolderKind × Option ℕ)
      (now : Time), (∃ id, state? id = some dest) ∧ resolveHolder env reader inst dest = .ok holder ∧
        p' = p.mirror dest holder now := by
  rcases h with rfl | ⟨reader, dest, holder, now, -, hid, hholder, rfl⟩
  · exact absurd (congrArg Post.status (Option.some.inj (hp'.symm.trans hp))) hmoved
  · rcases getElem?_modify_eq_some hp' with ⟨rfl, q, hq, rfl⟩ | ⟨-, hq⟩
    · obtain rfl := Option.some.inj (hp.symm.trans hq)
      exact ⟨rfl, reader, dest, holder, now, hid, hholder, rfl⟩
    · exact absurd (congrArg Post.status (Option.some.inj (hq.symm.trans hp))) hmoved

/-- The holder mirrored at a gate is the nearest one. -/
theorem nearest_mirror {reader : Claim} {holder : Option HolderKind × Option ℕ} {now : Time} {id : ℕ}
    (hgate : InternalGate kind gate) (hstate : state? id = some dest) (hcode : dest.code = gate.code)
    (hnodup : (env.directory.ancestorsOrSelf inst.orgUnitId).Nodup)
    (h : resolveHolder env reader inst dest = .ok holder) :
    ∃ user, (p.mirror dest holder now).holderKind = some .user ∧
      (p.mirror dest holder now).holderId = some user ∧
      Nearest env.directory gate (scope inst) user := by
  obtain ⟨rfl, hopen, hclaimant, -⟩ := hgate.unique hstate hcode
  obtain ⟨user, unit, rfl, heligible, hleast⟩ := resolveHolder_gate hopen
    (claimant_vocabulary reader.kind ▸ hclaimant)
    (by rw [external_vocabulary, List.mem_singleton]; exact hgate.code_ne) h
  exact ⟨user, rfl, rfl, nearest_of_proximity hnodup heligible hleast⟩

theorem claimUnit_linked {j : ℕ} {inst₀ : Instance} {unit : ℕ}
    (hlink : before.workflowInstanceId = some j) (hinst : σ.instances[j]? = some inst₀)
    (hunit : inst₀.orgUnitId = some unit) : claimUnit env σ before = some unit := by
  simp [claimUnit, hlink, hinst, hunit]

theorem claimUnit_unlinked (hlink : before.workflowInstanceId = none) :
    claimUnit env σ before = staffUnit env before.claimantId := by
  simp [claimUnit, hlink]

/-- A claim that enters a gate inside the bureau is held by the nearest eligible user. -/
theorem Posts.enters (h : Posts c σ σ') (hσ : Manned σ) (hloops : Unlooped σ c)
    (hbefore : σ.claims[i]? = some before) (hafter : σ'.claims[i]? = some after)
    (hmoved : after.status ≠ before.status) (hgate : InternalGate after.kind gate)
    (hstatus : after.status = gate.code) :
    ∃ inst user, σ'.instanceOf after = some inst ∧ after.holderKind = some .user ∧
      after.holderId = some user ∧ Nearest c.env.directory gate (scope inst) user := by
  have hp := posts_getElem? hbefore
  have hp' := posts_getElem? hafter
  have hlast : ∀ {j : ℕ} {s : Option ℕ × Option ℕ}, after.post.link = some j →
      σ'.scopes[j]? = some s → ∃ inst, σ'.instanceOf after = some inst ∧ scope inst = s := by
    intro j s hlink hscope
    obtain ⟨inst, hinst, hs⟩ := exists_scope hscope
    refine ⟨inst, ?_, hs⟩
    rw [Store.instanceOf, show after.workflowInstanceId = some j from hlink]
    exact hinst
  have hne : after.post.status ≠ before.post.status := hmoved
  unfold Posts at h
  generalize hposts : σ'.posts = posts at h hp'
  generalize hscopes : σ'.scopes = scopes at h hlast
  cases h with
  | kept => exact absurd (congrArg Post.status (Option.some.inj (hp'.symm.trans hp))) hne
  | filed p hdraft hlink hkind hid =>
      have hold : σ.posts[i]? = some after.post := by
        rwa [List.getElem?_append_left (List.getElem?_eq_some_iff.1 hp).1] at hp'
      exact absurd (congrArg Post.status (Option.some.inj (hold.symm.trans hp))) hne
  | dropped k =>
      rcases getElem?_modify_eq_some hp' with ⟨rfl, q, hq, hdrop⟩ | ⟨-, hq⟩
      · have hcancelled : gate.code = .cancelled := hstatus.symm.trans (congrArg Post.status hdrop)
        have hno : ∀ k, ∀ g ∈ (chain k).states, g.isApprovalGate = true → g.code ≠ .cancelled := by
          intro k
          cases k <;> decide
        exact absurd hcancelled (hno after.kind gate hgate.state hgate.signs)
      · exact absurd (congrArg Post.status (Option.some.inj (hq.symm.trans hp))) hne
  | acted r posts hr hmovedTo =>
      obtain ⟨p, j, inst, hpost, hlink, hscope, hreposted⟩ := hmovedTo
      obtain ⟨rfl, reader, dest, holder, now, ⟨id, hid⟩, hholder, hmirror⟩ :=
        hreposted.mirrored hp hp' hne
      obtain rfl := Option.some.inj (hp.symm.trans hpost)
      obtain ⟨inst₁, hinst₁, hscope₁⟩ := hlast ((congrArg Post.link hmirror).trans hlink) hscope
      obtain ⟨inst₀, hinst₀, hscope₀⟩ := exists_scope hscope
      obtain ⟨unit, hunit⟩ :=
        Option.ne_none_iff_exists'.1 (hσ.scopes _ (List.mem_of_getElem? hscope)).2
      have hunit₀ : inst₀.orgUnitId = some unit := (congrArg Prod.snd hscope₀).trans hunit
      have hnodup := hloops r.claimId (by
        unfold Call.moves?
        split
        · next q hq => simp [Call.action?, hq] at hr
        · simp [hr]) before hbefore
      rw [claimUnit_linked hlink hinst₀ hunit₀, ← show inst.orgUnitId = some unit from hunit]
        at hnodup
      have hcode : dest.code = gate.code := (congrArg Post.status hmirror).symm.trans hstatus
      obtain ⟨user, hkind, hid', hnearest⟩ :=
        @nearest_mirror c.env _ inst before.post gate dest reader holder now id hgate hid hcode
          hnodup hholder
      rw [← hmirror] at hkind hid'
      exact ⟨inst₁, user, hinst₁, hkind, hid', hscope₁ ▸ hnearest⟩
  | submitted r claim unit inst posts hr hclaim hlink hunit hscope hreposted =>
      have horgUnit : inst.orgUnitId = some unit := congrArg Prod.snd hscope
      -- the row after the link is written, with the status it had
      obtain ⟨p, hpost, hsame⟩ : ∃ p, (σ.posts.modify r.claimId fun p =>
          { p with link := some σ.scopes.length })[i]? = some p ∧
            p.status = before.post.status := by
        by_cases hi : r.claimId = i
        · subst hi
          exact ⟨_, getElem?_modify_self _ hp, rfl⟩
        · exact ⟨before.post, (List.getElem?_modify_ne _ _ hi).trans hp, rfl⟩
      obtain ⟨rfl, reader, dest, holder, now, ⟨id, hid⟩, hholder, hmirror⟩ :=
        hreposted.mirrored hpost hp' (hsame ▸ hne)
      obtain rfl := Option.some.inj (hclaim.symm.trans hbefore)
      rw [getElem?_modify_self _ hp] at hpost
      have hlinked : after.post.link = some σ.scopes.length := by
        rw [hmirror, ← Option.some.inj hpost]
        rfl
      obtain ⟨inst₁, hinst₁, hscope₁⟩ := hlast hlinked List.getElem?_concat_length
      have hnodup := hloops r.claimId (by simp [Call.moves?, hr]) claim hclaim
      rw [claimUnit_unlinked hlink, hunit, ← horgUnit] at hnodup
      have hcode : dest.code = gate.code := (congrArg Post.status hmirror).symm.trans hstatus
      obtain ⟨user, hkind, hid', hnearest⟩ :=
        @nearest_mirror c.env _ inst p gate dest reader holder now id hgate hid hcode hnodup hholder
      rw [← hmirror] at hkind hid'
      exact ⟨inst₁, user, hinst₁, hkind, hid', hscope₁ ▸ hnearest⟩

end

/-! ## Every run -/

/-- The holder columns of a claim, by its status. -/
structure Claim.Held (claim : Claim) : Prop where
  opened : claim.status ∉ (vocabulary claim.kind).terminal →
    (claim.status ≠ .handedToFms ∧ claim.holderKind = some .user ∧ claim.holderId ≠ none) ∨
      (claim.status = .handedToFms ∧ claim.holderKind = some .externalFms ∧ claim.holderId = none)
  closed : claim.status ∈ (vocabulary claim.kind).terminal →
    claim.holderKind = none ∧ claim.holderId = none ∧ claim.holderSince = none ∧
      claim.nextAction = none

/-- In every state of the run every claim has its holder, and a claim that enters a gate inside the
bureau has the nearest one. -/
structure OneHolder (calls : List Call) : Prop where
  held : ∀ done rest, calls = done ++ rest → ∀ (i : ℕ) (claim : Claim),
    (runStore done).claims[i]? = some claim → claim.Held
  entered : ∀ done c rest, calls = done ++ c :: rest → ∀ (i : ℕ) (before after : Claim)
    (gate : State Status), (runStore done).claims[i]? = some before →
      (runStore (done ++ [c])).claims[i]? = some after → after.status ≠ before.status →
      InternalGate after.kind gate → after.status = gate.code →
      ∃ inst user, (runStore (done ++ [c])).instanceOf after = some inst ∧
        after.holderKind = some .user ∧ after.holderId = some user ∧
        Nearest c.env.directory gate (scope inst) user

/-- Without caller keys a claim's status is one of its kind. -/
theorem status_mem_allStates (calls : List Call) (hkeys : ∀ c ∈ calls, c.Keyless) {i : ℕ}
    {claim : Claim} (hclaim : (runStore calls).claims[i]? = some claim) :
    claim.status ∈ (vocabulary claim.kind).allStates := by
  have hlockstep := runStore_lockstep calls hkeys (exists_file hclaim)
  rw [← chain_codes]
  by_cases hlink : claim.workflowInstanceId = none
  · have hall : ∀ k, .draft ∈ (chain k).states.map (·.code) ∧
        .cancelled ∈ (chain k).states.map (·.code) := by
      intro k
      cases k <;> decide
    rcases hlockstep.standing.unlinked hlink with hdraft | hcancelled
    · exact (show claim.status = .draft from hdraft) ▸ (hall claim.kind).1
    · exact (show claim.status = .cancelled from hcancelled) ▸ (hall claim.kind).2
  · obtain ⟨inst, hinst, -⟩ := hlockstep.standing.linked hlink
    obtain ⟨s, hs, hcode⟩ := hlockstep.current inst hlink hinst
    exact List.mem_map.2 ⟨s, List.mem_of_find?_eq_some hs, hcode⟩

theorem closed_iff_terminal (kind : Kind) :
    ∀ s ∈ (vocabulary kind).allStates, s ∈ closedStatuses ↔ s ∈ (vocabulary kind).terminal := by
  cases kind <;> decide

/-- In every run without caller keys in which the unit of each claim that moves has no unit above it
twice, every open claim has one holder, every closed one none, and a claim that enters a gate inside
the bureau is held by the nearest eligible user. -/
theorem one_holder_always (calls : List Call) (hkeys : ∀ c ∈ calls, c.Keyless)
    (hloops : Conforms Call.step Unlooped {} calls) : OneHolder calls := by
  constructor
  · rintro done rest rfl i claim hclaim
    have hkeysDone : ∀ c ∈ done, c.Keyless := fun c hc => hkeys c (List.mem_append_left _ hc)
    have hheld := (manned_runStore done).posts claim.post (List.mem_of_getElem? (posts_getElem? hclaim))
    have hterminal := closed_iff_terminal claim.kind claim.status
      (status_mem_allStates done hkeysDone hclaim)
    refine ⟨fun hopen => ?_, fun hclosed => hheld.closed (hterminal.2 hclosed)⟩
    by_cases hfms : claim.status = .handedToFms
    · exact .inr ⟨hfms, hheld.external hfms⟩
    · exact .inl ⟨hfms, hheld.inside (mt hterminal.1 hopen) hfms⟩
  · rintro done c rest rfl i before after gate hbefore hafter hmoved hgate hstatus
    have hc : Unlooped (runStore done) c := (conforms_append.1 hloops).2.1
    have hnext : runStore (done ++ [c]) = commit Call.step (runStore done) c := by
      rw [runStore, run_append, run_cons, run_nil]
      rfl
    rw [hnext] at hafter ⊢
    cases hstep : c.step (runStore done) with
    | error e =>
        have hsame : commit Call.step (runStore done) c = runStore done := by
          simp [commit, hstep]
        rw [hsame] at hafter
        rw [Option.some.inj (hafter.symm.trans hbefore)] at hmoved
        exact absurd rfl hmoved
    | ok σ' =>
        rw [commit_of_ok hstep] at hafter ⊢
        exact (Call.step_posts hstep).enters (manned_runStore done) hc hbefore hafter hmoved hgate
          hstatus

/-- An advance liquidated up to FMS. -/
theorem liquidateTrip_held : OneHolder (inOffice (liquidateTrip 1000)) :=
  one_holder_always _ (by decide) (by decide +kernel)

/-! ## Two units above each other -/

/-- The office with two units that are each other's parent: user 2 approves in the claimant's unit,
user 3 in the one above it. -/
def loopedOffice : Env :=
  { office with
    directory := { office.directory with
      orgUnits := [{ id := 1, parentOrgUnitId := some 2 }, { id := 2, parentOrgUnitId := some 1 }]
      grants := [
        { userId := 2, permission := approvePerm, orgUnitId := some 1 },
        { userId := 3, permission := approvePerm, orgUnitId := some 2 }] } }

/-- A reimbursement filed and filled in. -/
def loopedDraft : List Call :=
  (.createDraft 1 .reimbursement none :: fillTrip 0).map fun op => { env := loopedOffice, op := op }

def loopedSubmit : Call :=
  { env := loopedOffice, op := .submit { claimId := 0, actorUserId := 1 } }

/-- The approver of the claimant's own unit is passed over for the one above. -/
theorem loopedOffice_farther :
    (∀ c ∈ loopedDraft ++ [loopedSubmit], c.Keyless) ∧ ¬ OneHolder (loopedDraft ++ [loopedSubmit]) := by
  refine ⟨by decide, fun h => ?_⟩
  obtain ⟨before, hbefore, hdraft⟩ := exists_eq_some (o := (runStore loopedDraft).claims[0]?)
    (fun c => c.status = .draft) (by decide +kernel)
  obtain ⟨after, hafter, hgate⟩ := exists_eq_some
    (o := (runStore (loopedDraft ++ [loopedSubmit])).claims[0]?)
    (fun c => c.status = .divisionApproval ∧ c.kind = .reimbursement ∧ c.holderId = some 3 ∧
      ((runStore (loopedDraft ++ [loopedSubmit])).instanceOf c).any fun inst =>
        scope inst = (some 1, some 1)) (by decide +kernel)
  simp only [decide_eq_true_eq, Option.any_eq_true] at hdraft hgate
  obtain ⟨hstatus, hkind, hholder, inst, hinst, hscope⟩ := hgate
  have hinternal : InternalGate after.kind (gate 2 .divisionApproval approvePerm true) := by
    rw [hkind]
    exact ⟨by decide, rfl, by decide⟩
  obtain ⟨inst', user, hinst', -, hid, unit, heligible, hleast⟩ := h.entered loopedDraft loopedSubmit
    [] rfl 0 before after _ hbefore hafter (by rw [hstatus, hdraft]; decide) hinternal hstatus
  obtain rfl := Option.some.inj (hinst.symm.trans hinst')
  obtain rfl : 3 = user := Option.some.inj (hholder.symm.trans hid)
  rw [hscope] at heligible hleast
  have hown : Eligible loopedOffice.directory (gate 2 .divisionApproval approvePerm true)
      (some 1, some 1) 2 1 := ⟨by decide, by decide, by decide, by decide⟩
  have hle := hleast 2 1 hown
  obtain ⟨g, hg, huser, -, hunit, -⟩ := heligible.granted
  have hunits : ∀ g ∈ loopedOffice.directory.grants, g.userId = 3 → g.orgUnitId = some 2 := by decide
  obtain rfl : 2 = unit := Option.some.inj ((hunits g hg huser).symm.trans hunit)
  exact absurd hle (by decide)

end OfficeConnect.Reimbursement
