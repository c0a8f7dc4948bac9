import OfficeConnect.Ingest.Chains

/-!
# The order of the units

A feed whose parent chains do not loop is placed whole, every unit after its parent.  On a feed with
a cycle the rounds would go on for ever: the units on the cycle are never ready.
-/

namespace OfficeConnect.Ingest

open Lib Relation

variable {specs remaining order : List UnitSpec} {spec : UnitSpec} {code : String}
  {known : String → Prop}

/-! ## Every unit is placed -/

theorem isReady_eq_false : isReady remaining spec = false ↔
    ∃ parent ∈ remaining, spec.parentCode = some parent.code := by
  unfold isReady
  cases hparent : spec.parentCode with
  | none => simp
  | some p =>
      rw [Option.all_some, ← Bool.not_eq_true, Option.isNone_iff_eq_none, specOf_eq_none, not_not,
        List.mem_map]
      simp [eq_comm]

/-- The loop of `topologicalOrder` ends: from the remaining units, it places them in an order. -/
inductive Places : List UnitSpec → List UnitSpec → Prop
  | done : Places [] []
  | round {remaining order : List UnitSpec} (hne : remaining ≠ [])
      (hrest : Places (remaining.filter fun spec => ¬ isReady remaining spec) order) :
      Places remaining
        ((remaining.filter (isReady remaining)).insertionSort (fun a b => a.code ≤ b.code) ++ order)

theorem Places.perm (h : Places remaining order) : order.Perm remaining := by
  induction h with
  | done => exact .nil
  | @round remaining order hne hrest ih =>
      refine ((List.perm_insertionSort ..).append ih).trans ?_
      simpa using List.filter_append_perm (isReady remaining) remaining

/-- Each round of an acyclic feed places a unit. -/
theorem exists_ready (h : Acyclic (Under specs)) (hsub : ∀ s ∈ remaining, s ∈ specs)
    (hne : remaining ≠ []) : ∃ s ∈ remaining, isReady remaining s = true := by
  obtain ⟨top, htop, hnone⟩ := h.exists_top (mt List.map_eq_nil_iff.1 hne : remaining.map (·.code) ≠ [])
  obtain ⟨s, hs, rfl⟩ := List.mem_map.1 htop
  refine ⟨s, hs, Bool.eq_true_of_not_eq_false fun hwaits => ?_⟩
  obtain ⟨parent, hparent, hcode⟩ := isReady_eq_false.1 hwaits
  apply hnone parent.code (List.mem_map_of_mem hparent)
  exact ⟨s, hsub s hs, rfl, hcode, List.mem_map_of_mem (hsub parent hparent)⟩

theorem topologicalRounds_nil (rounds : ℕ) : topologicalRounds rounds [] = [] := by
  induction rounds with
  | zero => rfl
  | succ rounds ih => simp [topologicalRounds, ih]

theorem places_topologicalRounds (h : Acyclic (Under specs)) {rounds : ℕ}
    (hsub : ∀ s ∈ remaining, s ∈ specs) (hrounds : remaining.length ≤ rounds) :
    Places remaining (topologicalRounds rounds remaining) := by
  induction rounds generalizing remaining with
  | zero =>
      rw [List.length_eq_zero_iff.1 (Nat.le_zero.1 hrounds)]
      exact .done
  | succ rounds ih =>
      by_cases hne : remaining = []
      · subst hne
        rw [topologicalRounds_nil]
        exact .done
      · obtain ⟨s, hs, hready⟩ := exists_ready h hsub hne
        have hlt : (remaining.filter fun s => ¬ isReady remaining s).length < remaining.length :=
          List.length_filter_lt_length_iff_exists.2 ⟨s, hs, by simp [hready]⟩
        rw [topologicalRounds]
        exact .round hne (ih (fun s hs => hsub s (List.mem_of_mem_filter hs)) (by omega))

theorem places_topologicalOrder (h : Acyclic (Under specs)) : Places specs (topologicalOrder specs) :=
  places_topologicalRounds h (fun _ hs => hs) le_rfl

theorem topologicalOrder_perm (h : Loopless specs) : (topologicalOrder specs).Perm specs :=
  (places_topologicalOrder h.acyclic).perm

/-! ## A parent comes first -/

/-- Each unit's parent is known, or stands before it. -/
def ParentsFirst : (String → Prop) → List UnitSpec → Prop
  | _, [] => True
  | known, s :: rest =>
      (∀ p ∈ s.parentCode, known p) ∧ ParentsFirst (fun code => known code ∨ code = s.code) rest

theorem ParentsFirst.mono {known' : String → Prop} (h : ParentsFirst known specs)
    (hknown : ∀ code, known code → known' code) : ParentsFirst known' specs := by
  induction specs generalizing known known' with
  | nil => trivial
  | cons s rest ih =>
      refine ⟨fun p hp => hknown p (h.1 p hp), ih h.2 fun code hcode => ?_⟩
      exact hcode.imp_left (hknown code)

theorem parentsFirst_of_known (h : ∀ s ∈ specs, ∀ p ∈ s.parentCode, known p) :
    ParentsFirst known specs := by
  induction specs generalizing known with
  | nil => trivial
  | cons s rest ih =>
      obtain ⟨hs, hrest⟩ := List.forall_mem_cons.1 h
      exact ⟨hs, ih fun t ht p hp => .inl (hrest t ht p hp)⟩

theorem ParentsFirst.append {rest : List UnitSpec} (h : ParentsFirst known specs)
    (hrest : ParentsFirst (fun code => known code ∨ code ∈ specs.map (·.code)) rest) :
    ParentsFirst known (specs ++ rest) := by
  induction specs generalizing known with
  | nil => exact hrest.mono fun code hcode => by simpa using hcode
  | cons s specs ih =>
      refine ⟨h.1, ih h.2 (hrest.mono fun code hcode => ?_)⟩
      simpa [or_assoc] using hcode

theorem topologicalRounds_parentsFirst {rounds : ℕ}
    (h : ∀ s ∈ remaining, ∀ p ∈ s.parentCode, known p ∨ p ∈ remaining.map (·.code)) :
    ParentsFirst known (topologicalRounds rounds remaining) := by
  induction rounds generalizing remaining known with
  | zero => trivial
  | succ rounds ih =>
      rw [topologicalRounds]
      have hready : ∀ s, isReady remaining s = true → ∀ p ∈ s.parentCode,
          p ∉ remaining.map (·.code) := by
        intro s hs p hp
        simpa [isReady, Option.mem_def.1 hp, specOf_eq_none] using hs
      refine ParentsFirst.append (parentsFirst_of_known fun s hs p hp => ?_) (ih fun s hs p hp => ?_)
      · rw [List.mem_insertionSort, List.mem_filter] at hs
        exact (h s hs.1 p hp).resolve_right (hready s hs.2 p hp)
      · rw [List.mem_filter] at hs
        rcases h s hs.1 p hp with hknown | hremaining
        · exact .inl (.inl hknown)
        · obtain ⟨t, ht, rfl⟩ := List.mem_map.1 hremaining
          by_cases htready : isReady remaining t = true
          · refine .inl (.inr (List.mem_map_of_mem ?_))
            rw [List.mem_insertionSort, List.mem_filter]
            exact ⟨ht, htready⟩
          · exact .inr (List.mem_map_of_mem (List.mem_filter.2 ⟨ht, by simpa using htready⟩))

end OfficeConnect.Ingest
