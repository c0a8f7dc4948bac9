import OfficeConnect.Reimbursement.Compute
import OfficeConnect.Reimbursement.DayRates

/-!
# One config, one answer

Three resolvers look a key up in the config pack: the per-diem computation, `config_int` and the
checklist's effective pack.  Only the last one knows about tenants, so they agree in every order of
the rows exactly when no other row of the key shares the latest date.
-/

namespace OfficeConnect.Reimbursement

open Lib

/-! ## The three resolvers -/

/-- The config rows `compute_claim_totals` hands to the per-diem computation. -/
def fedConfigs (configs : List ConfigRow) : List ConfigRow :=
  configs.filter fun c => (c.key = apportionmentKey ∨ c.key = departureRateKey) ∧ c.isActive

theorem claimPerDiem_fedConfigs {env : Env} {σ : Store} {claimId : ℕ} {claim : Claim} :
    claimPerDiem env σ claimId claim =
      computePerDiem ((σ.claimLegs claimId).map fun l => l.2.input l.1)
        claim.trip.dateDepart claim.trip.dateReturn claim.trip.destinationRegionCode
        claim.trip.isWithin50km claim.trip.overnightStay env.regions env.rates
        (fedConfigs env.configs) := rfl

/-- The row `config_int` reads its field from. -/
def configIntRow (configs : List ConfigRow) (key : String) (today : Day) : Option ConfigRow :=
  asOf (·.effectiveFrom) (fun row => row.key = key ∧ row.isActive) today configs

theorem configInt_eq {configs : List ConfigRow} {key field : String} {default : ℤ} {today : Day} :
    configInt configs key field default today =
      match configIntRow configs key today with
      | none => default
      | some row => (row.int? field).getD default := rfl

/-! ## What they should answer -/

def ConfigRow.InForce (row : ConfigRow) (key : String) (day : Day) : Prop :=
  row.key = key ∧ row.isActive = true ∧ row.effectiveFrom ≤ day

instance (row : ConfigRow) (key : String) (day : Day) : Decidable (row.InForce key day) :=
  inferInstanceAs (Decidable (_ ∧ _ ∧ _))

/-- The row in force that is newer than every other one, if there is any in force. -/
structure BestRow (rows : List ConfigRow) (key : String) (day : Day) (best : Option ConfigRow) :
    Prop where
  missing : best = none → ∀ row ∈ rows, ¬ row.InForce key day
  newest : ∀ row, best = some row → row ∈ rows ∧ row.InForce key day ∧
    ∀ other ∈ rows, other.InForce key day → other ≠ row → row.newer other

/-- In every order of the rows the resolvers that look the key up give the row they should. -/
def OneAnswer (rows : List ConfigRow) (key : String) (day : Day) : Prop :=
  ∃ best, BestRow rows key day best ∧ ∀ rows' : List ConfigRow, rows'.Perm rows →
    (key = apportionmentKey ∨ key = departureRateKey →
      configAsOf (fedConfigs rows') key day = best) ∧
    configIntRow rows' key day = best ∧ effectiveConfig rows' day key = best

/-- No two rows in force share the latest date. -/
def LatestAlone (rows : List ConfigRow) (key : String) (day : Day) : Prop :=
  ∀ row ∈ rows, ∀ other ∈ rows, row.InForce key day → other.InForce key day →
    (∀ r ∈ rows, r.InForce key day → r.effectiveFrom ≤ row.effectiveFrom) →
    other.effectiveFrom = row.effectiveFrom → other = row

/-! ## Each is a maximum of the rows in force -/

/-- How `effective_config` ranks the rows of a key. -/
def ConfigRow.standing (row : ConfigRow) : Day ×ₗ Bool :=
  toLex (row.effectiveFrom, row.tenantId.isSome)

theorem ConfigRow.newer_iff {row current : ConfigRow} :
    row.newer current ↔ current.standing < row.standing := by
  simp only [ConfigRow.newer, ConfigRow.standing, Prod.Lex.toLex_lt_toLex, Bool.lt_iff,
    Option.isSome_eq_false_iff, Option.isNone_iff_eq_none, Option.isSome_iff_ne_none]
  tauto

section

variable {rows : List ConfigRow} {key : String} {day : Day}

/-- The rows a lookup chooses from. -/
def inForce (rows : List ConfigRow) (key : String) (day : Day) : List ConfigRow :=
  rows.filter fun row => row.InForce key day

theorem mem_inForce {row : ConfigRow} :
    row ∈ inForce rows key day ↔ row ∈ rows ∧ row.InForce key day := by
  rw [inForce, List.mem_filter, decide_eq_true_eq]

theorem configIntRow_eq_argmax :
    configIntRow rows key day = (inForce rows key day).argmax (·.effectiveFrom) := by
  rw [configIntRow, asOf_eq_argmax, inForce]
  congr 2
  funext row
  rw [Bool.eq_iff_iff]
  simp only [Bool.decide_and, Bool.and_eq_true, decide_eq_true_eq, Bool.decide_eq_true]
  rw [ConfigRow.InForce, and_assoc]

theorem configAsOf_eq_argmax (hkey : key = apportionmentKey ∨ key = departureRateKey) :
    configAsOf (fedConfigs rows) key day = (inForce rows key day).argmax (·.effectiveFrom) := by
  rw [configAsOf, asOf_eq_argmax, fedConfigs, List.filter_filter, inForce]
  congr 2
  funext row
  rw [Bool.eq_iff_iff]
  simp only [Bool.and_eq_true, decide_eq_true_eq]
  rw [ConfigRow.InForce]
  constructor
  · rintro ⟨⟨heq, hle⟩, -, hactive⟩
    exact ⟨heq, hactive, hle⟩
  · rintro ⟨rfl, hactive, hle⟩
    exact ⟨⟨rfl, hle⟩, hkey, hactive⟩

theorem effectiveConfig_eq_argmax :
    effectiveConfig rows day key = (inForce rows key day).argmax ConfigRow.standing := by
  rw [effectiveConfig, List.argmax, inForce]
  congr 1
  funext best row
  cases best with
  | none => rfl
  | some b => simp only [List.argAux, ConfigRow.newer_iff]

/-! ## When they agree -/

/-- Whichever row of the latest date comes first, `config_int` takes it. -/
theorem configIntRow_first {row : ConfigRow} (hmem : row ∈ rows) (hforce : row.InForce key day)
    (hlatest : ∀ r ∈ rows, r.InForce key day → r.effectiveFrom ≤ row.effectiveFrom) :
    ∃ rows' : List ConfigRow, rows'.Perm rows ∧ configIntRow rows' key day = some row := by
  refine ⟨row :: rows.erase row, (List.perm_cons_erase hmem).symm, ?_⟩
  rw [configIntRow_eq_argmax, inForce, List.filter_cons_of_pos (by simpa using hforce)]
  refine argmax_cons_of_le fun r hr => ?_
  obtain ⟨hr, hrforce⟩ := mem_inForce.1 hr
  exact hlatest r (List.mem_of_mem_erase hr) hrforce

/-- A row alone at the latest date is every resolver's answer. -/
theorem resolvers_of_alone {row : ConfigRow} (hmem : row ∈ inForce rows key day)
    (halone : ∀ other ∈ inForce rows key day, other ≠ row →
      other.effectiveFrom < row.effectiveFrom) :
    (key = apportionmentKey ∨ key = departureRateKey →
      configAsOf (fedConfigs rows) key day = some row) ∧
    configIntRow rows key day = some row ∧ effectiveConfig rows day key = some row := by
  refine ⟨fun hkey => ?_, ?_, ?_⟩
  · rw [configAsOf_eq_argmax hkey]
    exact argmax_eq_some_of_lt hmem halone
  · rw [configIntRow_eq_argmax]
    exact argmax_eq_some_of_lt hmem halone
  · rw [effectiveConfig_eq_argmax]
    refine argmax_eq_some_of_lt hmem fun other hother hne => ?_
    exact Prod.Lex.toLex_lt_toLex.2 (.inl (halone other hother hne))

/-- The resolvers agree in every order exactly when the latest date belongs to one row. -/
theorem oneAnswer_iff (rows : List ConfigRow) (key : String) (day : Day) :
    OneAnswer rows key day ↔ LatestAlone rows key day := by
  constructor
  · rintro ⟨best, -, hbest⟩ row hrow other hother hforce hforce' hlatest hdate
    obtain ⟨rows₁, hperm₁, hfirst₁⟩ := configIntRow_first hrow hforce hlatest
    obtain ⟨rows₂, hperm₂, hfirst₂⟩ :=
      configIntRow_first hother hforce' fun r hr hrf => (hlatest r hr hrf).trans_eq hdate.symm
    have h₁ := (hbest rows₁ hperm₁).2.1.symm.trans hfirst₁
    have h₂ := (hbest rows₂ hperm₂).2.1.symm.trans hfirst₂
    exact Option.some.inj (h₂.symm.trans h₁)
  · intro halone
    cases hbest : (inForce rows key day).argmax (·.effectiveFrom) with
    | none =>
        have hnil := List.argmax_eq_none.1 hbest
        refine ⟨none, ⟨fun _ row hrow hforce => ?_, nofun⟩,
          fun rows' hperm => ?_⟩
        · have hmem := mem_inForce.2 ⟨hrow, hforce⟩
          rw [hnil] at hmem
          cases hmem
        · have hnil' : inForce rows' key day = [] := by
            refine List.perm_nil.1 ((hperm.filter _).trans ?_)
            rw [← inForce, hnil]
          refine ⟨fun hkey => ?_, ?_, ?_⟩
          · rw [configAsOf_eq_argmax hkey, hnil', List.argmax_nil]
          · rw [configIntRow_eq_argmax, hnil', List.argmax_nil]
          · rw [effectiveConfig_eq_argmax, hnil', List.argmax_nil]
    | some row =>
        have hmem := List.argmax_mem hbest
        obtain ⟨hrow, hforce⟩ := mem_inForce.1 hmem
        have hlatest : ∀ r ∈ rows, r.InForce key day → r.effectiveFrom ≤ row.effectiveFrom :=
          fun r hr hrf => List.le_of_mem_argmax (mem_inForce.2 ⟨hr, hrf⟩) hbest
        have hlt : ∀ other ∈ inForce rows key day, other ≠ row →
            other.effectiveFrom < row.effectiveFrom := by
          intro other hother hne
          obtain ⟨hin, hotherForce⟩ := mem_inForce.1 hother
          refine lt_of_le_of_ne (hlatest other hin hotherForce) fun hdate => hne ?_
          exact halone row hrow other hin hforce hotherForce hlatest hdate
        refine ⟨some row, ⟨nofun, fun r hr => ?_⟩, fun rows' hperm => ?_⟩
        · obtain rfl := Option.some.inj hr
          exact ⟨hrow, hforce, fun other hother hotherForce hne =>
            .inl (hlt other (mem_inForce.2 ⟨hother, hotherForce⟩) hne)⟩
        · have hforcePerm : (inForce rows' key day).Perm (inForce rows key day) := hperm.filter _
          exact resolvers_of_alone (hforcePerm.mem_iff.2 hmem) fun other hother hne =>
            hlt other (hforcePerm.mem_iff.1 hother) hne

end

/-! ## A tenant's row on the platform's date -/

def platformRow : ConfigRow :=
  { key := apportionmentKey
    value := some [("lodging", .int 50), ("meals", .int 30), ("incidentals", .int 20)]
    effectiveFrom := 20454 }

def tenantRow : ConfigRow :=
  { platformRow with
    value := some [("lodging", .int 40), ("meals", .int 40), ("incidentals", .int 20)]
    tenantId := some 1 }

/-- The unique index admits both rows, and the order decides which one the money uses. -/
theorem tenantRow_ignored :
    ([platformRow, tenantRow].map fun r => (r.key, r.effectiveFrom, r.tenantId)).Nodup ∧
      ¬ OneAnswer [platformRow, tenantRow] apportionmentKey 20454 := by
  refine ⟨by decide +kernel, ?_⟩
  rintro ⟨best, -, hbest⟩
  obtain ⟨hmoney, -, hchecklist⟩ := hbest _ (.refl _)
  have hdiffer : configAsOf (fedConfigs [platformRow, tenantRow]) apportionmentKey 20454 ≠
      effectiveConfig [platformRow, tenantRow] 20454 apportionmentKey := by decide +kernel
  exact hdiffer ((hmoney (.inl rfl)).trans hchecklist.symm)

end OfficeConnect.Reimbursement
