import OfficeConnect.Core.Gate

/-!
# Planning again

An item's tally reaches the checks as three numbers and two truth values, and a truth value is no
number to any of them.  So the checks say the same of an item whose mark as generated has gone, and
once its plan is carried out a row is planned again without a change.
-/

namespace OfficeConnect.Checklist

open Lib

/-! ## Facts that differ in a truth value -/

/-- The value is no number and no list. -/
def Unnumbered (v : Json) : Prop := v.asDecimal = none ∧ ∀ items, v ≠ .list items

/-- The values are the same, or neither is a number. -/
def SameNumbers (a b : Option Json) : Prop :=
  a = b ∨ ∃ v w, a = some v ∧ b = some w ∧ Unnumbered v ∧ Unnumbered w

theorem SameNumbers.asDecimal {a b : Option Json} (h : SameNumbers a b) :
    a.bind Json.asDecimal = b.bind Json.asDecimal := by
  rcases h with rfl | ⟨v, w, rfl, rfl, hv, hw⟩
  · rfl
  · exact hv.1.trans hw.1.symm

theorem Unnumbered.amounts {v : Json} (h : Unnumbered v) : amounts (some v) = [] := by
  have hspread : spread (some v) = [v] := by
    cases v with
    | list items => exact absurd rfl (h.2 items)
    | _ => rfl
  rw [Checklist.amounts, hspread, List.filterMap_cons_none h.1]
  rfl

theorem SameNumbers.amounts {a b : Option Json} (h : SameNumbers a b) :
    Checklist.amounts a = Checklist.amounts b := by
  rcases h with rfl | ⟨v, w, rfl, rfl, hv, hw⟩
  · rfl
  · rw [hv.amounts, hw.amounts]

theorem unnumbered_obj (fields : Fields) : Unnumbered (.obj fields) := ⟨rfl, nofun⟩

theorem unnumbered_bool (b : Bool) : Unnumbered (.bool b) := ⟨rfl, nofun⟩

/-- The facts agree but for what is under `item`, and there but for a truth value. -/
structure Alike (facts facts' : Facts) : Prop where
  lookup : ∀ key ≠ "item", facts.lookup key = facts'.lookup key
  item : ∃ fields fields' g g', facts.lookup "item" = some (.obj fields) ∧
    facts'.lookup "item" = some (.obj fields') ∧
    fields.lookup "generated" = some (.bool g) ∧ fields'.lookup "generated" = some (.bool g') ∧
    ∀ key ≠ "generated", fields.lookup key = fields'.lookup key

variable {facts facts' : Facts}

theorem Alike.resolve (h : Alike facts facts') (segments : List String) :
    SameNumbers (segments.foldlM resolveSegment (.obj facts))
      (segments.foldlM resolveSegment (.obj facts')) := by
  obtain ⟨fields, fields', g, g', hitem, hitem', hg, hg', hfields⟩ := h.item
  rcases segments with _ | ⟨first, segments⟩
  · exact .inr ⟨_, _, rfl, rfl, unnumbered_obj _, unnumbered_obj _⟩
  · by_cases hfirst : first = "item"
    · subst hfirst
      simp only [List.foldlM_cons, resolveSegment, hitem, hitem']
      rcases segments with _ | ⟨second, segments⟩
      · exact .inr ⟨_, _, rfl, rfl, unnumbered_obj _, unnumbered_obj _⟩
      · by_cases hsecond : second = "generated"
        · subst hsecond
          rcases segments with _ | ⟨third, segments⟩
          · refine .inr ⟨.bool g, .bool g', ?_, ?_, unnumbered_bool _, unnumbered_bool _⟩
            · simp [resolveSegment, hg]
            · simp [resolveSegment, hg']
          · refine .inl ?_
            simp [resolveSegment, hg, hg']
        · refine .inl ?_
          simp [resolveSegment, hfields second hsecond]
    · refine .inl ?_
      simp only [List.foldlM_cons, resolveSegment, h.lookup first hfirst]

theorem Alike.resolveField (h : Alike facts facts') (path : Json) :
    SameNumbers (Checklist.resolveField facts path) (Checklist.resolveField facts' path) := by
  unfold Checklist.resolveField
  cases path with
  | str path =>
      dsimp only
      split_ifs
      · exact .inl rfl
      · exact h.resolve _
  | _ => exact .inl rfl

theorem Alike.specField (h : Alike facts facts') (spec : Fields) (key : String) :
    SameNumbers (Checklist.specField spec facts key) (Checklist.specField spec facts' key) :=
  h.resolveField _

theorem Alike.checkFilePresent (h : Alike facts facts') (spec : Fields) :
    Checklist.checkFilePresent spec facts = Checklist.checkFilePresent spec facts' := by
  obtain ⟨fields, fields', g, g', hitem, hitem', -, -, hfields⟩ := h.item
  have htally : ∀ key ≠ "generated", tally fields key = tally fields' key := by
    intro key hkey
    rw [tally, tally, hfields key hkey]
  unfold Checklist.checkFilePresent
  rw [hitem, hitem']
  dsimp only
  rw [htally _ (by decide), htally _ (by decide), htally _ (by decide)]

theorem Alike.checkAmountThreshold (h : Alike facts facts') (spec : Fields) :
    Checklist.checkAmountThreshold spec facts = Checklist.checkAmountThreshold spec facts' := by
  have hconfig : ∀ maxKey, configAmount facts maxKey = configAmount facts' maxKey := by
    intro maxKey
    unfold configAmount
    rw [h.lookup "config" (by decide)]
  rw [Checklist.checkAmountThreshold, Checklist.checkAmountThreshold, hconfig,
    (h.specField spec "field").amounts]

theorem Alike.checkDateWithinTrip (h : Alike facts facts') (spec : Fields) :
    Checklist.checkDateWithinTrip spec facts = Checklist.checkDateWithinTrip spec facts' := by
  have hdates : claimedDates facts = claimedDates facts' := by
    rw [claimedDates, claimedDates, h.lookup "legs" (by decide),
      h.lookup "evidence_dates" (by decide)]
  rw [Checklist.checkDateWithinTrip, Checklist.checkDateWithinTrip, h.lookup "trip" (by decide),
    hdates]

theorem Alike.checkSumMatches (h : Alike facts facts') (spec : Fields) :
    Checklist.checkSumMatches spec facts = Checklist.checkSumMatches spec facts' := by
  rw [Checklist.checkSumMatches, Checklist.checkSumMatches, (h.specField spec "of").amounts,
    (h.specField spec "vs").asDecimal]

theorem Alike.checkKeywordAbsent (h : Alike facts facts') (lower : String → String)
    (spec : Fields) :
    Checklist.checkKeywordAbsent lower spec facts = Checklist.checkKeywordAbsent lower spec facts' := by
  rw [Checklist.checkKeywordAbsent, Checklist.checkKeywordAbsent, h.lookup "ocr_text" (by decide)]

theorem Alike.checkDeadlineCheck (h : Alike facts facts') (spec : Fields) :
    Checklist.checkDeadlineCheck spec facts = Checklist.checkDeadlineCheck spec facts' := by
  have hdeadline : ∀ key, deadline facts key = deadline facts' key := by
    intro key
    unfold deadline
    rw [h.lookup "deadlines" (by decide)]
  rw [Checklist.checkDeadlineCheck, Checklist.checkDeadlineCheck, hdeadline,
    h.lookup "today" (by decide)]

theorem Alike.runAutoChecks (h : Alike facts facts') (str : Json → String) (lower : String → String)
    (checks : Json) :
    Checklist.runAutoChecks str lower checks facts =
      Checklist.runAutoChecks str lower checks facts' := by
  have hrun : ∀ (type : CheckType) (spec : Fields),
      type.run lower spec facts = type.run lower spec facts' := by
    intro type spec
    cases type with
    | filePresent => exact h.checkFilePresent spec
    | amountThreshold => exact h.checkAmountThreshold spec
    | dateWithinTrip => exact h.checkDateWithinTrip spec
    | sumMatches => exact h.checkSumMatches spec
    | keywordAbsent => exact h.checkKeywordAbsent lower spec
    | deadlineCheck => exact h.checkDeadlineCheck spec
  have hcheck : runAutoCheck str lower facts = runAutoCheck str lower facts' := by
    funext spec
    cases spec with
    | obj spec =>
        dsimp only [runAutoCheck]
        cases runner? spec with
        | none => rfl
        | some type => exact hrun type spec
    | _ => rfl
  unfold Checklist.runAutoChecks
  rw [hcheck]

/-! ## The same tally -/

/-- The states have one tally and one waiver. -/
structure SameTally (s s' : Option ItemState) : Prop where
  count : countOf (·.evidenceCount) s = countOf (·.evidenceCount) s'
  pending : countOf (·.evidencePending) s = countOf (·.evidencePending) s'
  infected : countOf (·.evidenceInfected) s = countOf (·.evidenceInfected) s'
  waived : s.any (·.waived) = s'.any (·.waived)

theorem SameTally.alike {s s' : Option ItemState} (h : SameTally s s') (facts : Facts) :
    Alike (itemFacts facts s) (itemFacts facts s') := by
  refine ⟨fun key hkey => ?_, itemFields s, itemFields s', s.any (·.generated), s'.any (·.generated),
    ?_, ?_, ?_, ?_, fun key hkey => ?_⟩
  · simp only [itemFacts, List.lookup_cons, beq_false_of_ne hkey]
  · simp [itemFacts]
  · simp [itemFacts]
  · simp [itemFields, List.lookup_cons]
  · simp [itemFields, List.lookup_cons]
  · simp only [itemFields, List.lookup_cons, beq_false_of_ne hkey, h.count, h.pending, h.infected,
      h.waived]

theorem SameTally.count_iff {s : Option ItemState} {t : ItemState} (h : SameTally s (some t)) :
    s.any (0 < ·.evidenceCount.1) = decide (0 < t.evidenceCount.1) := by
  have hcount := congrArg Subtype.val h.count
  cases s with
  | none =>
      change (0 : ℤ) = t.evidenceCount.1 at hcount
      simp [← hcount]
  | some s =>
      change s.evidenceCount.1 = t.evidenceCount.1 at hcount
      simp [hcount]

/-! ## A plan carried out -/

/-- The item once its plan is carried out. -/
structure Settled (p : ItemPlan) (s : Option ItemState) (t : ItemState) : Prop where
  tally : SameTally s (some t)
  generated : p.action ≠ .makeDormant → (t.generated = true ↔ p.derivedStatus = .generated)
  dormant : t.dormant = true ↔ p.action = .makeDormant

section

variable {row : CatalogSpec} {s : Option ItemState} {t : ItemState} {checks : List CheckResult}

theorem derive_again (htally : SameTally s (some t))
    (hgenerated : t.generated = true ↔ (derive row s checks).2 = .generated) :
    derive row (some t) checks = derive row s checks := by
  have hwaived : s.any (·.waived) = t.waived := htally.waived
  have hcount := htally.count_iff
  unfold derive at hgenerated ⊢
  simp only [Option.any_some, hwaived, hcount] at hgenerated ⊢
  cases hw : t.waived with
  | true => simp
  | false =>
      rw [hw] at hgenerated
      cases hg : s.any (·.generated) with
      | true =>
          rw [hg] at hgenerated
          rw [hgenerated.2 (by simp)]
      | false =>
          have hnot : t.generated = false := by
            rw [hg] at hgenerated
            rw [← Bool.not_eq_true, hgenerated]
            simp only [Bool.false_eq_true, if_false]
            split_ifs <;> simp
          simp [hnot]

variable {str : Json → String} {lower : String → String} {facts : Facts} {p : ItemPlan}

theorem planAction_eq {applies : Bool} :
    planAction applies (some t) = .makeDormant ↔ applies = false ∧ t.holdsSomething = false := by
  unfold planAction
  dsimp only
  split_ifs <;> simp_all

theorem planAction_create {applies : Bool} : planAction applies s = .create ↔ s = none := by
  cases s with
  | none => simp [planAction]
  | some s =>
      unfold planAction
      dsimp only
      split_ifs <;> simp

theorem planAction_keep {applies : Bool} (hdormant : t.dormant = false)
    (h : applies = true ∨ t.holdsSomething = true) : planAction applies (some t) = .keep := by
  unfold planAction
  dsimp only
  rw [hdormant, if_neg (by simp)]
  split_ifs with happlies hholds
  · rfl
  · rfl
  · exact absurd h (by simp [happlies, hholds])

/-- An item whose plan is carried out still holds what it held. -/
theorem holdsSomething_again {s : ItemState} (htally : SameTally (some s) (some t))
    (hgenerated : t.generated = true ↔ (derive row (some s) checks).2 = .generated)
    (h : s.holdsSomething = true) : t.holdsSomething = true := by
  have hwaived : s.waived = t.waived := htally.waived
  have hcount : s.evidenceCount = t.evidenceCount := htally.count
  unfold ItemState.holdsSomething at h ⊢
  rw [decide_eq_true_eq] at h ⊢
  rw [← hcount, ← hwaived]
  rcases h with h | h | h
  · exact .inl h
  · exact .inr (.inl h)
  · cases hw : s.waived with
    | true => exact .inr (.inl rfl)
    | false =>
        refine .inr (.inr (hgenerated.2 ?_))
        simp [derive, hw, h]

/-- The checks and the derived status of a settled item are those of its plan. -/
theorem planItem_settled {o : RuleOutcome} (ho : evaluateRequiredRule row.requiredRule facts = .ok o)
    (hchecks : runAutoChecks str lower row.autoChecks (itemFacts facts s) = .ok checks)
    (hsettled : Settled (planOf row s o checks) s t) (hskipped : skipped o (some t) = false) :
    planItem str lower facts (some t) row = .ok (some (planOf row (some t) o checks)) := by
  refine planItem_eq_ok.2 ⟨o, ho, ?_⟩
  rw [hskipped, if_neg (by decide)]
  refine ⟨checks, ?_, rfl⟩
  rw [← hchecks]
  exact ((hsettled.tally.alike facts).runAutoChecks str lower row.autoChecks).symm

/-- A row whose plan is carried out is kept as it is, or skipped where it was put away, but for one
that has an unreadable rule and got its item only then. -/
theorem planItem_again (h : planItem str lower facts s row = .ok (some p)) (hsettled : Settled p s t)
    (hread : p.unparseableRule = true → s ≠ none) :
    (p.action = .makeDormant ∧ planItem str lower facts (some t) row = .ok none) ∨
      p.action ≠ .makeDormant ∧ ∃ p', planItem str lower facts (some t) row = .ok (some p') ∧
        p'.action = .keep ∧ p'.derivedStatus = p.derivedStatus := by
  obtain ⟨o, ho, hrest⟩ := planItem_eq_ok.1 h
  split_ifs at hrest with hskipped
  obtain ⟨checks, hchecks, hp⟩ := hrest
  cases hp
  have hkept : ∀ applies, planAction o.required s ≠ .makeDormant → skipped o (some t) = false →
      o.required = applies → applies = true ∨ t.holdsSomething = true →
        ∃ p', planItem str lower facts (some t) row = .ok (some p') ∧ p'.action = .keep ∧
          p'.derivedStatus = (planOf row s o checks).derivedStatus := by
    rintro applies haction hskipped' rfl hholds
    have hdormant : t.dormant = false := by
      rw [← Bool.not_eq_true, hsettled.dormant]
      exact haction
    refine ⟨_, planItem_settled ho hchecks hsettled hskipped', planAction_keep hdormant hholds, ?_⟩
    exact congrArg Prod.snd (derive_again hsettled.tally (hsettled.generated haction))
  cases hreq : o.required with
  | true =>
      have haction : planAction o.required s ≠ .makeDormant := by
        cases s with
        | none => nofun
        | some s => simp [planAction_eq, hreq]
      exact .inr ⟨haction, hkept true haction
        (not_skipped_of_required hreq (readable_of_required ho hreq)) hreq (.inl rfl)⟩
  | false =>
      cases s with
      | none =>
          have hunread : o.unparseable = false := by
            rw [← Bool.not_eq_true]
            exact fun hunread => hread hunread rfl
          simp [skipped, hreq, hunread] at hskipped
      | some s =>
          cases hholds : s.holdsSomething with
          | true =>
              have haction : planAction o.required (some s) ≠ .makeDormant := by
                simp [planAction_eq, hholds]
              have hdormant : t.dormant = false := by
                rw [← Bool.not_eq_true, hsettled.dormant]
                exact haction
              exact .inr ⟨haction, hkept false haction (by simp [skipped, hreq, hdormant]) hreq
                (.inr (holdsSomething_again hsettled.tally (hsettled.generated haction) hholds))⟩
          | false =>
              have haction : planAction o.required (some s) = .makeDormant :=
                planAction_eq.2 ⟨hreq, hholds⟩
              have hdormant : t.dormant = true := hsettled.dormant.2 haction
              refine .inl ⟨haction, planItem_eq_ok.2 ⟨o, ho, ?_⟩⟩
              rw [if_pos (by simp [skipped, hreq, hdormant])]

/-- An item created for an unreadable rule is put away the next time. -/
theorem planItem_withdrawn (h : planItem str lower facts none row = .ok (some p))
    (hsettled : Settled p none t) (hunread : p.unparseableRule = true) :
    p.action = .create ∧
      ∃ p', planItem str lower facts (some t) row = .ok (some p') ∧ p'.action = .makeDormant := by
  obtain ⟨o, ho, hrest⟩ := planItem_eq_ok.1 h
  split_ifs at hrest
  obtain ⟨checks, hchecks, hp⟩ := hrest
  cases hp
  refine ⟨rfl, ?_⟩
  have hreq : o.required = false := required_of_unparseable ho hunread
  have hdormant : t.dormant = false := by
    rw [← Bool.not_eq_true, hsettled.dormant]
    nofun
  have hcount : t.evidenceCount.1 = 0 := (congrArg Subtype.val hsettled.tally.count).symm
  have hwaived : t.waived = false := hsettled.tally.waived.symm
  have hgenerated : t.generated = false := by
    rw [← Bool.not_eq_true, hsettled.generated nofun]
    simp only [planOf, derive, Option.any_none, Bool.false_eq_true, if_false]
    split_ifs <;> simp
  refine ⟨_, planItem_settled ho hchecks hsettled ?_, planAction_eq.2 ⟨hreq, ?_⟩⟩
  · simp [skipped, hdormant]
  · simp [ItemState.holdsSomething, hcount, hwaived, hgenerated]

/-- Only a live item is kept. -/
theorem live_of_keep (h : planItem str lower facts (some t) row = .ok (some p))
    (haction : p.action = .keep) : t.dormant = false := by
  obtain ⟨o, -, hrest⟩ := planItem_eq_ok.1 h
  split_ifs at hrest with hskipped
  obtain ⟨checks, -, hp⟩ := hrest
  cases hp
  rw [← Bool.not_eq_true]
  intro hdormant
  cases hreq : o.required with
  | true =>
      change planAction o.required (some t) = .keep at haction
      simp [planAction, hreq, hdormant] at haction
  | false =>
      cases hunread : o.unparseable <;> simp [skipped, hreq, hunread, hdormant] at hskipped

end

end OfficeConnect.Checklist
