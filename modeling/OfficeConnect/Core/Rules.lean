import OfficeConnect.Core.Grammar
import OfficeConnect.Lib.Returns

/-!
# What a rule says

The rules themselves, apart from their JSON: what each one is true of and which JSON values write
it.  The validator accepts exactly what writes a rule, and the evaluator agrees with the rule's
meaning where no operand is a NaN.
-/

namespace OfficeConnect.Checklist

open Lib

inductive Rule where
  | always (b : Bool)
  | condition (field : String) (comparator : Comparator) (expected : Json)
  | junction (operator : Junction) (branches : List Rule)

/-! ## Meaning -/

/-- What a comparison says of a value that is present. -/
def Comparator.holds : Comparator → Json → Json → Bool
  | eq, .bool a, .bool b => a = b
  | eq, actual, expected =>
      !isBool actual && !isBool expected &&
        match actual.asDecimal, expected.asDecimal with
        | some left, some right => Decimal.order left right = some .eq
        | _, _ => actual.pyEq expected
  | contains, .str s, .str t => t.toList <:+: s.toList
  | contains, .list items, expected => items.any (·.pyEq expected)
  | contains, _, _ => false
  | gt, actual, expected =>
      match actual.asDecimal, expected.asDecimal with
      | some left, some right => Decimal.order left right = some .gt
      | _, _ => false

/-- A comparison with a missing field is false. -/
def Comparison.holds (facts : Facts) (c : Comparison) : Bool :=
  (resolveField facts c.field).any (c.comparator.holds · c.expected)

mutual

/-- The truth value of a rule. -/
def Rule.holds (facts : Facts) : Rule → Bool
  | .always b => b
  | .condition field comparator expected => Comparison.holds facts ⟨.str field, comparator, expected⟩
  | .junction operator branches => operator.combine (Rule.holdsEach facts branches)

def Rule.holdsEach (facts : Facts) : List Rule → List Bool
  | [] => []
  | r :: rs => r.holds facts :: Rule.holdsEach facts rs

end

mutual

/-- The comparisons of a rule. -/
def Rule.comparisons : Rule → List Comparison
  | .always _ => []
  | .condition field comparator expected => [⟨.str field, comparator, expected⟩]
  | .junction _ branches => Rule.comparisonsOf branches

def Rule.comparisonsOf : List Rule → List Comparison
  | [] => []
  | r :: rs => r.comparisons ++ Rule.comparisonsOf rs

end

def Comparison.NaNFree (facts : Facts) (c : Comparison) : Prop :=
  (∀ d ∈ (resolveField facts c.field).bind Json.asDecimal, ¬ d.IsNaN) ∧
    ∀ d ∈ c.expected.asDecimal, ¬ d.IsNaN

instance (facts : Facts) (c : Comparison) : Decidable (c.NaNFree facts) :=
  inferInstanceAs (Decidable (_ ∧ _))

def Rule.NaNFree (facts : Facts) (r : Rule) : Prop := ∀ c ∈ r.comparisons, c.NaNFree facts

@[simp] theorem holdsEach_eq {facts : Facts} {rs : List Rule} :
    Rule.holdsEach facts rs = rs.map (Rule.holds facts) := by
  induction rs with
  | nil => rfl
  | cons r rs ih => rw [Rule.holdsEach, ih, List.map_cons]

@[simp] theorem comparisonsOf_eq {rs : List Rule} :
    Rule.comparisonsOf rs = rs.flatMap Rule.comparisons := by
  induction rs with
  | nil => rfl
  | cons r rs ih => rw [Rule.comparisonsOf, ih, List.flatMap_cons]

/-! ## Spelling -/

/-- The JSON value writes the rule, nested at most so deep. -/
def Spells : ℕ → Rule → Json → Prop
  | _, .always b, rule => rule = .obj [("always", .bool b)]
  | _, .condition field comparator expected, rule => ∃ fields,
      fields.Perm [("field", .str field), (comparator.text, expected)] ∧ rule = .obj [("if", .obj fields)]
  | 0, .junction _ _, _ => False
  | n + 1, .junction operator rs, rule => rs ≠ [] ∧ ∃ branches,
      List.Forall₂ (fun r branch => Spells n r branch) rs branches ∧
        rule = .obj [(operator.text, .list branches)]

/-! ## The evaluator -/

/-- The decimals a comparator cannot take. -/
def Comparator.Rejects : Comparator → Decimal → Prop
  | eq, d => d = .nan true
  | contains, _ => False
  | gt, d => d.IsNaN

/-- No two decimals that the comparator cannot take. -/
def Comparator.Calm (c : Comparator) (actual : Option Json) (expected : Json) : Prop :=
  ∀ left ∈ actual.bind Json.asDecimal, ∀ right ∈ expected.asDecimal,
    ¬ c.Rejects left ∧ ¬ c.Rejects right

theorem eq_bool {j : Json} (h : isBool j = true) : ∃ b, j = .bool b := by
  cases j with
  | bool b => exact ⟨b, rfl⟩
  | _ => cases h

/-- Truth values meet only each other. -/
theorem cmpEq_of_isBool {actual expected : Json} (h : isBool actual ∨ isBool expected) :
    cmpEq (some actual) expected = .ok (Comparator.eq.holds actual expected) := by
  unfold cmpEq
  dsimp only
  rw [if_pos h]
  rcases h with h | h
  · obtain ⟨a, rfl⟩ := eq_bool h
    cases expected <;> rfl
  · obtain ⟨e, rfl⟩ := eq_bool h
    cases actual <;> simp [Comparator.holds, isBool]

theorem holds_eq_of_not_isBool {actual expected : Json} (h : ¬ (isBool actual ∨ isBool expected)) :
    Comparator.eq.holds actual expected =
      match actual.asDecimal, expected.asDecimal with
      | some left, some right => decide (Decimal.order left right = some .eq)
      | _, _ => actual.pyEq expected := by
  have hne : ∀ a b, actual = .bool a → expected = .bool b → False := by
    rintro a b rfl -
    exact h (.inl rfl)
  rw [not_or, Bool.not_eq_true, Bool.not_eq_true] at h
  rw [Comparator.holds.eq_2 _ _ hne, h.1, h.2]
  rfl

theorem cmpEq_eq_ok {actual : Option Json} {expected : Json} {b : Bool} :
    cmpEq actual expected = .ok b ↔
      Comparator.eq.Calm actual expected ∧ actual.any (Comparator.eq.holds · expected) = b := by
  cases actual with
  | none => simp [cmpEq, Comparator.Calm]
  | some actual =>
      by_cases h : isBool actual ∨ isBool expected
      · have hcalm : Comparator.eq.Calm (some actual) expected := by
          intro left hleft right hright
          rcases h with h | h
          · obtain ⟨a, rfl⟩ := eq_bool h
            cases hleft
          · obtain ⟨e, rfl⟩ := eq_bool h
            cases hright
        rw [cmpEq_of_isBool h]
        simp [hcalm]
      · unfold cmpEq Comparator.Calm
        dsimp only
        rw [if_neg h]
        simp only [Option.bind_some, Option.any_some, holds_eq_of_not_isBool h]
        cases actual.asDecimal with
        | none => simp
        | some left =>
            cases expected.asDecimal with
            | none => simp
            | some right => simp [Comparator.Rejects, Decimal.eq_eq_ok, and_assoc]

theorem cmpContains_eq_ok {actual : Option Json} {expected : Json} {b : Bool} :
    cmpContains actual expected = .ok b ↔ actual.any (Comparator.contains.holds · expected) = b := by
  rcases actual with _ | (_ | _ | _ | _ | s | items | _)
  case some.str => cases expected <;> simp [cmpContains, Comparator.holds]
  all_goals simp [cmpContains, Comparator.holds]

theorem cmpGt_eq_ok {actual : Option Json} {expected : Json} {b : Bool} :
    cmpGt actual expected = .ok b ↔
      Comparator.gt.Calm actual expected ∧ actual.any (Comparator.gt.holds · expected) = b := by
  unfold cmpGt Comparator.Calm
  cases actual with
  | none => simp
  | some actual =>
      simp only [Option.bind_some, Option.any_some, Comparator.holds]
      cases actual.asDecimal with
      | none => simp
      | some left =>
          cases expected.asDecimal with
          | none => simp
          | some right => simp [Comparator.Rejects, Decimal.gt_eq_ok, and_assoc]

theorem Comparator.run_eq_ok {c : Comparator} {actual : Option Json} {expected : Json} {b : Bool} :
    c.run actual expected = .ok b ↔
      c.Calm actual expected ∧ actual.any (c.holds · expected) = b := by
  cases c with
  | eq => exact cmpEq_eq_ok
  | contains => exact cmpContains_eq_ok.trans (by simp [Calm, Rejects])
  | gt => exact cmpGt_eq_ok

/-- No two decimals that the comparison cannot take. -/
def Comparison.Calm (facts : Facts) (c : Comparison) : Prop :=
  c.comparator.Calm (resolveField facts c.field) c.expected

theorem Comparison.run_eq_ok {facts : Facts} {c : Comparison} {b : Bool} :
    c.run facts = .ok b ↔ c.Calm facts ∧ c.holds facts = b := Comparator.run_eq_ok

theorem Comparison.NaNFree.calm {facts : Facts} {c : Comparison} (h : c.NaNFree facts) :
    c.Calm facts := by
  have hrejects : ∀ d, ¬ d.IsNaN → ¬ c.comparator.Rejects d := by
    intro d hd hr
    cases hc : c.comparator with
    | eq =>
        rw [hc] at hr
        rw [show d = .nan true from hr] at hd
        exact hd trivial
    | contains =>
        rw [hc] at hr
        exact hr
    | gt =>
        rw [hc] at hr
        exact hd hr
  exact fun left hleft right hright =>
    ⟨hrejects left (h.1 left hleft), hrejects right (h.2 right hright)⟩

/-! ## Keys and operators -/

@[simp] theorem comparator?_eq_some {key : String} {c : Comparator} :
    comparator? key = some c ↔ key = c.text := by
  constructor
  · intro h
    have := List.find?_some h
    simp only [decide_eq_true_eq] at this
    exact this.symm
  · rintro rfl
    cases c <;> rfl

@[simp] theorem junction?_eq_some {key : String} {j : Junction} :
    junction? key = some j ↔ key = j.text := by
  constructor
  · intro h
    have := List.find?_some h
    simp only [decide_eq_true_eq] at this
    exact this.symm
  · rintro rfl
    cases j <;> rfl

theorem Comparator.text_ne_field (c : Comparator) : c.text ≠ "field" := by cases c <;> decide

theorem Junction.text_ne_always (j : Junction) : j.text ≠ "always" := by cases j <;> decide

theorem Junction.text_ne_if (j : Junction) : j.text ≠ "if" := by cases j <;> decide

@[simp] theorem junction?_text (j : Junction) : junction? j.text = some j := junction?_eq_some.2 rfl

/-- A list of two, in either order. -/
theorem eq_of_perm_pair {α : Type} {as : List α} {a b : α} (h : as.Perm [a, b]) :
    as = [a, b] ∨ as = [b, a] := by
  obtain ⟨x, y, rfl⟩ := List.length_eq_two.1 h.length_eq
  have hx : x ∈ [a, b] := h.subset (List.mem_cons_self ..)
  simp only [List.mem_cons, List.not_mem_nil, or_false] at hx
  rcases hx with rfl | rfl
  · have hy := (List.perm_cons x).1 h
    rw [List.perm_singleton] at hy
    exact .inl (by rw [hy])
  · have hy := (List.perm_cons x).1 (h.trans (List.Perm.swap x a []))
    rw [List.perm_singleton] at hy
    exact .inr (by rw [hy])

theorem filter_key_of_lookup {fields : List (String × Json)} {key : String} {v : Json}
    (hkeys : (fields.map Prod.fst).Nodup) (h : fields.lookup key = some v) :
    fields.filter (·.1 = key) = [(key, v)] := by
  induction fields with
  | nil => cases h
  | cons p fields ih =>
      obtain ⟨key', v'⟩ := p
      rw [List.map_cons, List.nodup_cons] at hkeys
      by_cases hk : key' = key
      · subst hk
        rw [List.lookup_cons_self, Option.some_inj] at h
        have hnil : fields.filter (·.1 = key') = [] := by
          refine List.filter_eq_nil_iff.2 fun q hq => ?_
          rw [decide_eq_true_eq]
          exact fun hq' => hkeys.1 (List.mem_map.2 ⟨q, hq, hq'⟩)
        rw [List.filter_cons_of_pos (by simp), hnil, h]
      · rw [List.lookup_cons, beq_false_of_ne (Ne.symm hk)] at h
        rw [List.filter_cons_of_neg (by simpa using hk)]
        exact ih hkeys.2 h

theorem condition_of_perm {fields : List (String × Json)} {field : String} {c : Comparator}
    {expected : Json} (h : fields.Perm [("field", .str field), (c.text, expected)]) :
    fields.lookup "field" = some (.str field) ∧
      fields.filter (·.1 ≠ "field") = [(c.text, expected)] := by
  have hc := c.text_ne_field
  rcases eq_of_perm_pair h with rfl | rfl
  · simp [hc]
  · simp [List.lookup_cons, beq_false_of_ne hc.symm, hc]

theorem perm_of_condition {fields : List (String × Json)} {key : String} {v expected : Json}
    (hkeys : (fields.map Prod.fst).Nodup) (hfield : fields.lookup "field" = some v)
    (hothers : fields.filter (·.1 ≠ "field") = [(key, expected)]) :
    fields.Perm [("field", v), (key, expected)] := by
  have hsplit := List.filter_append_perm (fun p : String × Json => decide (p.1 = "field")) fields
  simp only [← decide_not] at hsplit
  rw [filter_key_of_lookup hkeys hfield, hothers] at hsplit
  exact hsplit.symm

/-! ## The validator -/

theorem validateCondition_obj {quote : String → String} {fields : List (String × Json)} :
    validateCondition quote (.obj fields) = .ok () ↔
      (∃ field, fields.lookup "field" = some (.str field)) ∧
        ∃ c expected, fields.filter (·.1 ≠ "field") = [(Comparator.text c, expected)] := by
  unfold validateCondition
  simp only [ok_bind]
  generalize fields.filter (·.1 ≠ "field") = others
  rcases fields.lookup "field" with _ | v
  · simp
  · cases v with
    | str field =>
        rcases others with _ | ⟨⟨key, expected⟩, _ | ⟨p, others⟩⟩
        · simp
        · simp [← comparator?_eq_some, Option.eq_none_iff_forall_ne_some]
        · simp
    | _ => simp

section

variable {quote : String → String} {levels : ℕ} {operator : String} {operand : Json}

theorem validateAt_always :
    validateAt quote (levels + 1) (.obj [("always", operand)]) = .ok () ↔ ∃ b, operand = .bool b := by
  cases operand <;> simp [validateAt]

theorem validateAt_if :
    validateAt quote (levels + 1) (.obj [("if", operand)]) = .ok () ↔
      ∃ fields, operand = .obj fields ∧ validateCondition quote (.obj fields) = .ok () := by
  cases operand <;> simp [validateAt, validateCondition]

theorem validateAt_junction {j : Junction} :
    validateAt quote (levels + 1) (.obj [(j.text, operand)]) = .ok () ↔
      ∃ branches, operand = .list branches ∧ branches ≠ [] ∧
        ∀ branch ∈ branches, validateAt quote levels branch = .ok () := by
  conv_lhs => unfold validateAt
  rw [if_neg j.text_ne_always, if_neg j.text_ne_if, junction?_text]
  cases operand <;> simp [forM_eq_ok]

/-- Only an object with one operator is accepted. -/
theorem eq_operator_of_validateAt {rule : Json} (h : validateAt quote (levels + 1) rule = .ok ()) :
    ∃ operator operand, rule = .obj [(operator, operand)] ∧
      (operator = "always" ∨ operator = "if" ∨ ∃ j : Junction, operator = j.text) := by
  rcases rule with _ | _ | _ | _ | _ | _ | fields
  case obj =>
    rcases fields with _ | ⟨⟨operator, operand⟩, _ | ⟨p, fields⟩⟩
    · cases h
    · refine ⟨operator, operand, rfl, ?_⟩
      by_contra hne
      push Not at hne
      obtain ⟨halways, hif, hjunction⟩ := hne
      have hnone : junction? operator = none :=
        Option.eq_none_iff_forall_ne_some.2 fun j hj => hjunction j (junction?_eq_some.1 hj)
      unfold validateAt at h
      rw [if_neg halways, if_neg hif, hnone] at h
      cases h
    · cases h
  all_goals cases h

end

theorem proper_branches {operator : String} {branches : List Json}
    (h : (Json.obj [(operator, .list branches)]).Proper) : ∀ branch ∈ branches, branch.Proper := by
  simp only [Json.Proper, Json.ProperFields] at h
  exact Json.properList_iff.1 h.2.1

theorem nodup_operand {operator : String} {fields : List (String × Json)}
    (h : (Json.obj [(operator, .obj fields)]).Proper) : (fields.map Prod.fst).Nodup := by
  simp only [Json.Proper, Json.ProperFields] at h
  exact h.2.1.1

/-- The validator accepts what writes a rule. -/
theorem validateAt_iff_spells {quote : String → String} {levels : ℕ} {rule : Json}
    (hrule : rule.Proper) :
    validateAt quote levels rule = .ok () ↔ ∃ n r, levels = n + 1 ∧ Spells n r rule := by
  induction levels generalizing rule with
  | zero => exact ⟨nofun, nofun⟩
  | succ levels ih =>
      constructor
      · intro h
        refine ⟨levels, ?_⟩
        obtain ⟨operator, operand, rfl, rfl | rfl | ⟨j, rfl⟩⟩ := eq_operator_of_validateAt h
        · obtain ⟨b, rfl⟩ := validateAt_always.1 h
          exact ⟨.always b, rfl, by rw [Spells]⟩
        · obtain ⟨fields, rfl, h⟩ := validateAt_if.1 h
          obtain ⟨⟨field, hfield⟩, c, expected, hothers⟩ := validateCondition_obj.1 h
          refine ⟨.condition field c expected, rfl, ?_⟩
          rw [Spells]
          exact ⟨fields, perm_of_condition (nodup_operand hrule) hfield hothers, rfl⟩
        · obtain ⟨branches, rfl, hne, h⟩ := validateAt_junction.1 h
          have hbranches : ∀ branch ∈ branches, ∃ n r, levels = n + 1 ∧ Spells n r branch :=
            fun branch hb => (ih (proper_branches hrule branch hb)).1 (h branch hb)
          obtain ⟨n, -, rfl, -⟩ := hbranches _ (List.head_mem hne)
          have hspells : ∀ branch ∈ branches, ∃ r, Spells n r branch := by
            intro branch hb
            obtain ⟨n', r, hn, hr⟩ := hbranches branch hb
            cases hn
            exact ⟨r, hr⟩
          obtain ⟨rs, hrs⟩ := exists_forall₂.2 hspells
          refine ⟨.junction j rs, rfl, ?_, branches, hrs.flip, rfl⟩
          rintro rfl
          cases hrs
          exact hne rfl
      · rintro ⟨n, r, hn, h⟩
        obtain rfl : levels = n := by omega
        cases r with
        | always b =>
            rw [Spells] at h
            subst h
            exact validateAt_always.2 ⟨b, rfl⟩
        | condition field c expected =>
            rw [Spells] at h
            obtain ⟨fields, hperm, rfl⟩ := h
            obtain ⟨hfield, hothers⟩ := condition_of_perm hperm
            exact validateAt_if.2 ⟨fields, rfl,
              validateCondition_obj.2 ⟨⟨field, hfield⟩, c, expected, hothers⟩⟩
        | junction j rs =>
            cases levels with
            | zero => exact absurd h id
            | succ levels =>
                obtain ⟨hne, branches, hspells, rfl⟩ := h
                refine validateAt_junction.2 ⟨branches, rfl, ?_, fun branch hb => ?_⟩
                · rintro rfl
                  cases hspells
                  exact hne rfl
                · obtain ⟨r, hr⟩ := exists_forall₂.1 ⟨rs, hspells.flip⟩ branch hb
                  exact (ih (proper_branches hrule branch hb)).2 ⟨levels, r, rfl, hr⟩

/-! ## The evaluator's answer -/

section

variable {facts : Facts} {levels : ℕ}

theorem evaluateAt_if {operand : Json} {c : Comparison} (h : condition? operand = some c) :
    evaluateAt facts (levels + 1) (.obj [("if", operand)]) = do
      let matched ← c.run facts
      return { required := matched, reason := if matched then .conditionMet else .conditionUnmet } := by
  conv_lhs => unfold evaluateAt
  rw [if_neg (by decide), if_pos rfl, h]

theorem evaluateAt_junction {j : Junction} {branches : List Json} :
    evaluateAt facts (levels + 1) (.obj [(j.text, .list branches)]) = do
      let outcomes ← branches.mapM (evaluateAt facts levels)
      if outcomes.any (·.unparseable) then return unparseable
      else
        let matched := j.combine (outcomes.map (·.required))
        return { required := matched, reason := j.reason matched } := by
  conv_lhs => unfold evaluateAt
  rw [if_neg j.text_ne_always, if_neg j.text_ne_if, junction?_text]

theorem condition?_obj {fields : List (String × Json)} {field expected : Json} {c : Comparator}
    (hfield : fields.lookup "field" = some field)
    (hothers : fields.filter (·.1 ≠ "field") = [(c.text, expected)]) :
    condition? (.obj fields) = some ⟨field, c, expected⟩ := by
  unfold condition?
  simp only [Option.bind_eq_bind, Option.bind_some, hfield, hothers, comparator?_eq_some.2 rfl]
  rfl

/-- What each branch answers, from what it writes. -/
theorem outcomes_of_spells {f : Json → Except Fault RuleOutcome} {n : ℕ} {rs : List Rule}
    {branches : List Json}
    (hbranch : ∀ r ∈ rs, ∀ branch, Spells n r branch →
      ∃ o, f branch = .ok o ∧ o.unparseable = false ∧ o.required = r.holds facts)
    (h : List.Forall₂ (fun r branch => Spells n r branch) rs branches) :
    ∃ os, branches.mapM f = .ok os ∧ os.any (·.unparseable) = false ∧
      os.map (·.required) = rs.map (Rule.holds facts) := by
  induction h with
  | nil => exact ⟨[], rfl, rfl, rfl⟩
  | cons hr _ ih =>
      obtain ⟨o, ho, hread, hholds⟩ := hbranch _ (List.mem_cons_self ..) _ hr
      obtain ⟨os, hos, hreads, hall⟩ := ih fun r hr => hbranch r (List.mem_cons_of_mem _ hr)
      refine ⟨o :: os, ?_, ?_, ?_⟩
      · rw [List.mapM_cons, ho, ok_bind, hos]
        rfl
      · rw [List.any_cons, hread, hreads]
        rfl
      · rw [List.map_cons, List.map_cons, hholds, hall]

theorem evaluateAt_of_spells {n : ℕ} {r : Rule} {rule : Json} (hlevels : levels = n + 1)
    (h : Spells n r rule) (hnan : r.NaNFree facts) :
    ∃ o, evaluateAt facts levels rule = .ok o ∧ o.unparseable = false ∧
      o.required = r.holds facts := by
  induction levels generalizing n r rule with
  | zero => omega
  | succ levels ih =>
      obtain rfl : levels = n := by omega
      cases r with
      | always b =>
          rw [Spells] at h
          subst h
          exact ⟨_, rfl, rfl, rfl⟩
      | condition field c expected =>
          rw [Spells] at h
          obtain ⟨fields, hperm, rfl⟩ := h
          obtain ⟨hfield, hothers⟩ := condition_of_perm hperm
          have hcalm := (hnan ⟨.str field, c, expected⟩ (by simp [Rule.comparisons])).calm
          rw [evaluateAt_if (condition?_obj hfield hothers), Comparison.run_eq_ok.2 ⟨hcalm, rfl⟩]
          exact ⟨_, rfl, rfl, rfl⟩
      | junction j rs =>
          cases levels with
          | zero => exact absurd h id
          | succ levels =>
              obtain ⟨-, branches, hspells, rfl⟩ := h
              have hbranch : ∀ r ∈ rs, ∀ branch, Spells levels r branch →
                  ∃ o, evaluateAt facts (levels + 1) branch = .ok o ∧ o.unparseable = false ∧
                    o.required = r.holds facts := by
                intro r hr branch hb
                refine ih rfl hb fun c hc => hnan c ?_
                simp only [Rule.comparisons, comparisonsOf_eq, List.mem_flatMap]
                exact ⟨r, hr, hc⟩
              obtain ⟨os, hos, hreads, hall⟩ := outcomes_of_spells hbranch hspells
              rw [evaluateAt_junction, hos, ok_bind, hreads, hall, Rule.holds, holdsEach_eq]
              exact ⟨_, rfl, rfl, rfl⟩

end

/-- What cannot be read requires nothing. -/
theorem required_of_unparseable {facts : Facts} {levels : ℕ} {rule : Json} {o : RuleOutcome}
    (h : evaluateAt facts levels rule = .ok o) (ho : o.unparseable = true) : o.required = false := by
  unfold evaluateAt at h
  split at h
  · cases h
    rfl
  · split_ifs at h
    · split at h <;> cases h <;> first | rfl | cases ho
    · split at h
      · cases h
        rfl
      · simp only [bind_eq_ok, pure_eq_ok] at h
        obtain ⟨matched, -, rfl⟩ := h
        cases ho
    · split at h
      · simp only [bind_eq_ok] at h
        obtain ⟨outcomes, -, h⟩ := h
        split_ifs at h
        · cases h
          rfl
        · cases h
          cases ho
      · cases h
        rfl
  · cases h
    rfl
  · cases h
    rfl

/-! ## The grammar -/

/-- The validator accepts the rules of the grammar, nested at most `maxRuleDepth` deep, and no other
JSON value; what it accepts the evaluator reads, and answers with the rule's truth value. -/
theorem validateRequiredRule_grammar (quote : String → String) (rule : Json) (hrule : rule.Proper) :
    (validateRequiredRule quote rule = .ok () ↔ ∃ r, Spells maxRuleDepth r rule) ∧
      ∀ r facts, Spells maxRuleDepth r rule → r.NaNFree facts →
        ∃ o, evaluateRequiredRule rule facts = .ok o ∧ o.unparseable = false ∧
          o.required = r.holds facts := by
  refine ⟨?_, fun r facts hr hnan => evaluateAt_of_spells rfl hr hnan⟩
  unfold validateRequiredRule
  rw [validateAt_iff_spells hrule]
  simp

/-- `{"any": [{"always": false}, {"if": {"gt": 0, "field": "totals.other"}}]}`. -/
def otherExpenses : Json :=
  .obj [("any", .list [.obj [("always", .bool false)],
    .obj [("if", .obj [("gt", .int ⟨0, printable_zero⟩), ("field", .str "totals.other")])]])]

def otherExpensesRule : Rule :=
  .junction .any [.always false, .condition "totals.other" .gt (.int ⟨0, printable_zero⟩)]

theorem spells_otherExpenses : Spells maxRuleDepth otherExpensesRule otherExpenses :=
  ⟨by simp, _, .cons rfl (.cons ⟨_, List.Perm.swap .., rfl⟩ .nil), rfl⟩

theorem otherExpenses_required :
    validateRequiredRule id otherExpenses = .ok () ∧
      ∃ o, evaluateRequiredRule otherExpenses [("totals", .obj [("other", .str "250.00")])] = .ok o ∧
        o.unparseable = false ∧ o.required = true := by
  obtain ⟨haccepted, hanswer⟩ := validateRequiredRule_grammar id otherExpenses
    (by simp [otherExpenses, Json.Proper, Json.ProperFields, Json.ProperList])
  refine ⟨haccepted.2 ⟨_, spells_otherExpenses⟩, ?_⟩
  have hholds : otherExpensesRule.holds [("totals", .obj [("other", .str "250.00")])] = true := by
    decide +kernel
  rw [← hholds]
  refine hanswer _ _ spells_otherExpenses fun c hc => ?_
  obtain rfl := List.mem_singleton.1 hc
  decide +kernel

end OfficeConnect.Checklist
