import OfficeConnect.Reimbursement.Standing

/-!
# The difference of an over-advance is claimed once

The one-spawn rule is keyed on the liquidation, the money on the advance.  The two agree as long as
a reimbursement is spawned from a liquidation that is settled, for an advance has one live
liquidation at a time.
-/

namespace OfficeConnect.Reimbursement

open Lib Workflow

/-! ## The rule and the condition -/

/-- The claim is a live reimbursement spawned for the advance. -/
def Claim.Spawned (c : Claim) (advanceId : ℕ) : Prop :=
  c.kind = .reimbursement ∧ c.status ≠ .cancelled ∧ c.cashAdvanceId = some advanceId ∧
    c.spawnedFromClaimId ≠ none

instance (c : Claim) (advanceId : ℕ) : Decidable (c.Spawned advanceId) :=
  inferInstanceAs (Decidable (_ ∧ _ ∧ _ ∧ _))

/-- Each advance has at most one live spawn, and its source is a settled liquidation of the same
advance. -/
structure SpawnedOnce (σ : Store) : Prop where
  once : ∀ (i i' : ℕ) (c c' : Claim) (advanceId : ℕ), σ.claims[i]? = some c →
    σ.claims[i']? = some c' → c.Spawned advanceId → c'.Spawned advanceId → i = i'
  source : ∀ (i : ℕ) (c : Claim) (advanceId : ℕ), σ.claims[i]? = some c → c.Spawned advanceId →
    ∃ (l : ℕ) (source : Claim), c.spawnedFromClaimId = some l ∧ σ.claims[l]? = some source ∧
      source.kind = .liquidation ∧ source.cashAdvanceId = some advanceId ∧
      source.status = .settled

/-- The liquidation a call spawns from. -/
def Call.spawnSource? (c : Call) : Option ℕ :=
  match c.op with
  | .spawn r => some r.liquidationClaimId
  | _ => none

/-- A spawn names a settled liquidation, and settled claims stay settled. -/
def SpawnsSettled (σ : Store) (c : Call) : Prop :=
  (∀ l ∈ c.spawnSource?, ∀ source ∈ σ.claims[l]?, source.status = .settled) ∧ StaysSettled σ c

instance (σ : Store) (c : Call) : Decidable (SpawnsSettled σ c) :=
  inferInstanceAs (Decidable (_ ∧ _))

/-! ## Every spawn keeps its settled source -/

section

variable {c : Call} {σ σ' : Store}

/-- The source of every spawned claim is a settled liquidation of the same advance. -/
def Sourced (σ : Store) : Prop :=
  ∀ i f l, σ.file? i = some f → f.spine.spawnedFrom = some l →
    ∃ g, σ.file? l = some g ∧ g.spine.kind = .liquidation ∧
      g.spine.cashAdvanceId = f.spine.cashAdvanceId ∧ g.spine.status = .settled

theorem Sourced.step (h : Sourced σ) (hreg : Regular σ)
    (hstanding : ∀ i f, σ.file? i = some f → Standing f) (hc : SpawnsSettled σ c)
    (hstep : c.step σ = .ok σ') : Sourced σ' := by
  -- a settled liquidation is one after the call
  have hkeeps : ∀ l g, σ.file? l = some g → g.spine.status = .settled → ∃ g',
      σ'.file? l = some g' ∧ g'.spine.kind = g.spine.kind ∧
      g'.spine.cashAdvanceId = g.spine.cashAdvanceId ∧ g'.spine.status = .settled := by
    intro l g hg hsettled
    obtain ⟨g', hg', hgs⟩ := hreg.file_persists hstep hg
    obtain ⟨hkind, hadvance, -⟩ := hgs.origin_eq
    exact ⟨g', hg', hkind, hadvance, hgs.settled hg (hstanding l g hg) hc.2 hsettled⟩
  intro i f' l hf' hl
  rcases hreg.file_step hstep hf' with ⟨f, hf, hfs⟩ | ⟨-, hopened⟩
  · obtain ⟨-, hadvance, hspawn⟩ := hfs.origin_eq
    rw [hspawn] at hl
    obtain ⟨g, hg, hkind, hsame, hsettled⟩ := h i f l hf hl
    obtain ⟨g', hg', hkind', hadvance', hsettled'⟩ := hkeeps l g hg hsettled
    exact ⟨g', hg', hkind'.trans hkind, by rw [hadvance', hsame, hadvance], hsettled'⟩
  · rcases hopened.origin with hnone | ⟨r, source, hop, hsource, hkind, -, hfrom, hadvance⟩
    · rw [hnone] at hl
      cases hl
    · obtain rfl := Option.some.inj (hfrom.symm.trans hl)
      obtain ⟨claim, hclaim, rfl⟩ := exists_claim hsource
      have hsettled := hc.1 r.liquidationClaimId (by simp [Call.spawnSource?, hop]) claim hclaim
      obtain ⟨g', hg', hkind', hadvance', hsettled'⟩ := hkeeps _ _ (exists_file hclaim) hsettled
      exact ⟨g', hg', hkind'.trans hkind, hadvance'.trans hadvance.symm, hsettled'⟩

theorem sourced_runStore (calls : List Call)
    (hcalls : Conforms Call.step (OnReturn Call.step SpawnsSettled) {} calls) :
    Sourced (runStore calls) := by
  refine reachable_invariant (fun done c σ' hc hsourced hok => ?_) (fun i f l hf => ?_) calls hcalls
  · have hsettled : SpawnsSettled (runStore done) c := hc.of_ok hok
    exact hsourced.step (regular_runStore done) (fun _ _ => standing_runStore done) hsettled hok
  · simp [Store.file?, Docket.file?, Store.docket] at hf

theorem Sourced.spawnedOnce (h : Sourced σ) (hreg : Regular σ) : SpawnedOnce σ := by
  have hsource : ∀ (i : ℕ) (c : Claim) (advanceId : ℕ), σ.claims[i]? = some c →
      c.Spawned advanceId → ∃ (l : ℕ) (source : Claim), c.spawnedFromClaimId = some l ∧
      σ.claims[l]? = some source ∧ source.kind = .liquidation ∧
      source.cashAdvanceId = some advanceId ∧ source.status = .settled := by
    rintro i c advanceId hclaim ⟨-, -, hadvance, hspawn⟩
    obtain ⟨l, hl⟩ := Option.ne_none_iff_exists'.1 hspawn
    obtain ⟨g, hg, hkind, hsame, hsettled⟩ := h i _ l (exists_file hclaim) hl
    obtain ⟨s, hs, rfl⟩ := file?_eq_some.1 hg
    obtain ⟨source, hsource, rfl⟩ := exists_claim hs
    exact ⟨l, source, hl, hsource, hkind, hsame.trans hadvance, hsettled⟩
  refine ⟨fun i i' c c' advanceId hc hc' hs hs' => ?_, hsource⟩
  obtain ⟨l, source, hl, hsrc, hkind, hadv, hsettled⟩ := hsource i c advanceId hc hs
  obtain ⟨l', source', hl', hsrc', hkind', hadv', hsettled'⟩ := hsource i' c' advanceId hc' hs'
  -- both sources are live liquidations of the advance, so they are one claim, with one live spawn
  obtain rfl : l = l' := eq_of_nodup_filterMap (x := advanceId) hreg.indexed.liquidation hsrc hsrc'
    (by simp [Claim.liveLiquidation, hkind, hsettled, hadv])
    (by simp [Claim.liveLiquidation, hkind', hsettled', hadv'])
  exact eq_of_nodup_filterMap (x := l) hreg.indexed.spawn hc hc'
    (by simp [Claim.liveSpawn, hs.2.1, hl]) (by simp [Claim.liveSpawn, hs'.2.1, hl'])

end

/-- In every run whose spawns that return name settled liquidations and whose settled claims stay
settled, each advance has at most one live spawn, from its settled liquidation. -/
theorem spawnedOnce_runStore (calls : List Call)
    (hcalls : Conforms Call.step (OnReturn Call.step SpawnsSettled) {} calls) :
    SpawnedOnce (runStore calls) :=
  (sourced_runStore calls hcalls).spawnedOnce (regular_runStore calls)

/-- The settled over-advance and the reimbursement spawned from it. -/
def spawnTrip : List Call :=
  inOffice (settleTrip 1000 ++ [.spawn { liquidationClaimId := 0, actorUserId := 1 }])

theorem spawnTrip_spawnedOnce :
    (runStore spawnTrip).claims.map (fun c => (c.status, c.spawnedFromClaimId)) =
      [(.settled, none), (.draft, some 0)] ∧ SpawnedOnce (runStore spawnTrip) :=
  ⟨by decide +kernel,
    spawnedOnce_runStore spawnTrip (Conforms.onReturn (P := SpawnsSettled) (by decide +kernel))⟩

/-- A liquidation cancelled as a draft, a second one of the same advance settled over it, and a
reimbursement spawned from each. -/
def doubleSpawn : List Call := inOffice ([
  .createAdvance { claimantId := 1, amount := 1000 },
  .startLiquidation { cashAdvanceId := 0, actorUserId := 1 }] ++ fillTrip 0 ++ [
  .cancelDraft { claimId := 0, actorUserId := 1, comment := "filed twice" },
  .startLiquidation { cashAdvanceId := 0, actorUserId := 1 }] ++ fileTrip 1 ++ signTrip 1 ++ [
  .settle { claimId := 1, actorUserId := 3 },
  .spawn { liquidationClaimId := 0, actorUserId := 1 },
  .spawn { liquidationClaimId := 1, actorUserId := 1 }])

/-- The difference is claimed twice: once from the cancelled liquidation. -/
theorem doubleSpawn_not_spawnedOnce : ¬ SpawnedOnce (runStore doubleSpawn) := by
  intro h
  obtain ⟨c, hc, hs⟩ := exists_eq_some (o := (runStore doubleSpawn).claims[2]?)
    (fun c => c.Spawned 0) (by decide +kernel)
  obtain ⟨c', hc', hs'⟩ := exists_eq_some (o := (runStore doubleSpawn).claims[3]?)
    (fun c => c.Spawned 0) (by decide +kernel)
  exact absurd (h.once 2 3 c c' 0 hc hc' (of_decide_eq_true hs) (of_decide_eq_true hs')) (by decide)

end OfficeConnect.Reimbursement
