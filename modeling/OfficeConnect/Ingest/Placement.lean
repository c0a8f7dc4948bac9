import OfficeConnect.Ingest.Order

/-!
# The cycle check guards the order

The loop that orders the units has no guard of its own: it ends exactly on the acyclic feeds.  The
cycle check finds every cycle, so the loop only starts where it ends.
-/

namespace OfficeConnect.Ingest

open Lib Relation

variable {specs remaining order order' : List UnitSpec} {spec : UnitSpec} {child parent : String}
  {known : String → Prop}

/-! ## Where the loop ends -/

/-- The loop is deterministic. -/
theorem Places.unique (h : Places remaining order) (h' : Places remaining order') :
    order = order' := by
  induction h generalizing order' with
  | done =>
      cases h' with
      | done => rfl
      | round hne => exact absurd rfl hne
  | round hne _ ih =>
      cases h' with
      | done => exact absurd rfl hne
      | round _ hrest => rw [ih hrest]

/-- No round places a unit on a cycle: its parent is on the cycle too, so both remain. -/
theorem Places.acyclic (h : Places remaining order) (hcodes : (specs.map (·.code)).Nodup)
    (hsub : ∀ s ∈ remaining, s ∈ specs)
    (hcycles : ∀ code, TransGen (Under specs) code code → code ∈ remaining.map (·.code)) :
    Acyclic (Under specs) := by
  induction h with
  | done => exact fun code hcycle => List.not_mem_nil (hcycles code hcycle)
  | @round remaining order _ _ ih =>
      refine ih (fun s hs => hsub s (List.mem_of_mem_filter hs)) fun code hcycle => ?_
      obtain ⟨s, hs, rfl⟩ := List.mem_map.1 (hcycles code hcycle)
      obtain ⟨above, hstep, hpath⟩ := TransGen.head'_iff.1 hcycle
      obtain ⟨p, hp, rfl⟩ := List.mem_map.1 (hcycles above (.tail' hpath hstep))
      have hparent := ((under_iff hcodes (hsub s hs)).1 hstep).1
      have hwaits := isReady_eq_false.2 ⟨p, hp, hparent⟩
      exact List.mem_map_of_mem (List.mem_filter.2 ⟨hs, by simp [hwaits]⟩)

/-- The loop ends on the acyclic feeds, and on no other. -/
theorem places_iff (hcodes : (specs.map (·.code)).Nodup) :
    Places specs order ↔ Acyclic (Under specs) ∧ order = topologicalOrder specs := by
  constructor
  · intro h
    have hacyclic : Acyclic (Under specs) := by
      refine h.acyclic hcodes (fun _ hs => hs) fun code hcycle => ?_
      obtain ⟨-, ⟨spec, hspec, rfl, -⟩, -⟩ := TransGen.head'_iff.1 hcycle
      exact List.mem_map_of_mem hspec
    exact ⟨hacyclic, h.unique (places_topologicalOrder hacyclic)⟩
  · rintro ⟨hacyclic, rfl⟩
    exact places_topologicalOrder hacyclic

/-! ## What stands before what -/

/-- A parent that is not known beforehand stands before its child. -/
theorem ParentsFirst.precedes (h : ParentsFirst known order) (hcodes : (order.map (·.code)).Nodup)
    (hspec : spec ∈ order) (hparent : spec.parentCode = some parent) (hnew : ¬ known parent) :
    (order.map (·.code)).idxOf parent < (order.map (·.code)).idxOf spec.code := by
  induction order generalizing known with
  | nil => cases hspec
  | cons s rest ih =>
      rw [List.map_cons, List.nodup_cons] at hcodes
      have hrest : spec ∈ rest := by
        refine (List.mem_cons.1 hspec).resolve_left ?_
        rintro rfl
        exact hnew (h.1 parent hparent)
      have hne : s.code ≠ spec.code := by
        intro heq
        exact hcodes.1 (heq ▸ List.mem_map_of_mem hrest)
      rw [List.map_cons, List.idxOf_cons_ne _ hne]
      by_cases hhead : s.code = parent
      · rw [hhead, List.idxOf_cons_self]
        omega
      · rw [List.idxOf_cons_ne _ hhead]
        have hlt := ih h.2 hcodes.2 hrest (by simp [hnew, Ne.symm hhead])
        omega

/-- Of two units of the feed, the parent stands before its child. -/
theorem topologicalOrder_precedes (h : Loopless specs) (hunder : Under specs child parent) :
    ((topologicalOrder specs).map (·.code)).idxOf parent <
      ((topologicalOrder specs).map (·.code)).idxOf child := by
  have hperm := topologicalOrder_perm h
  obtain ⟨spec, hspec, rfl, hparent, hmem⟩ := hunder
  have hfirst : ParentsFirst (fun code => code ∉ specs.map (·.code)) (topologicalOrder specs) :=
    topologicalRounds_parentsFirst fun s _ p _ => (em _).symm
  exact hfirst.precedes ((hperm.map _).nodup_iff.2 h.codes) (hperm.mem_iff.2 hspec) hparent
    (not_not.2 hmem)

/-! ## The law -/

/-- The check reports a unit of every cycle, and where there is none only units with too long a chain
above them; where it reports nothing, the loop ends with every unit placed after its parent. -/
theorem detectOrgCycles_guards_order (specs : List UnitSpec)
    (hcodes : (specs.map (·.code)).Nodup) :
    (∀ code, TransGen (Under specs) code code → .parentCycle code ∈ detectOrgCycles specs) ∧
      (Acyclic (Under specs) → ∀ problem ∈ detectOrgCycles specs, ∃ spec ∈ specs,
        problem = .parentCycle spec.code ∧ ∃ chain : List String,
          maxTreeDepth < chain.length ∧ (spec.code :: chain).IsChain (Under specs) ∧
            (spec.code :: chain).Nodup) ∧
      (detectOrgCycles specs = [] → Places specs (topologicalOrder specs) ∧
        ((topologicalOrder specs).map (·.code)).Perm (specs.map (·.code)) ∧
        ∀ child parent, Under specs child parent →
          ((topologicalOrder specs).map (·.code)).idxOf parent <
            ((topologicalOrder specs).map (·.code)).idxOf child) := by
  refine ⟨fun code hcycle => cycle_reported hcodes hcycle, fun hacyclic problem hproblem => ?_,
    fun hends => ?_⟩
  · obtain ⟨spec, hspec, hclimbs, rfl⟩ := (mem_detectOrgCycles hcodes).1 hproblem
    obtain ⟨chain, hlength, hchain⟩ := climbs_iff_chain.1 hclimbs
    exact ⟨spec, hspec, rfl, chain, by omega, hchain, hacyclic.nodup_of_chain hchain⟩
  · have hloopless : Loopless specs := ⟨hcodes, hends⟩
    exact ⟨places_topologicalOrder hloopless.acyclic, (topologicalOrder_perm hloopless).map _,
      fun _ _ => topologicalOrder_precedes hloopless⟩

/-- A section listed before its division, which names a bureau outside the feed. -/
def sectionFirst : List UnitSpec :=
  [{ code := "A-1", name := some "Section 1", kind := some "section", parentCode := some "A",
      sortOrder := 0, isActive := true },
    { code := "A", name := some "Division A", kind := some "division", parentCode := some "HQ",
      sortOrder := 0, isActive := true }]

theorem sectionFirst_ordered :
    Places sectionFirst (topologicalOrder sectionFirst) ∧
      ((topologicalOrder sectionFirst).map (·.code)).Perm ["A-1", "A"] := by
  obtain ⟨-, -, hordered⟩ := detectOrgCycles_guards_order sectionFirst (by decide)
  obtain ⟨hplaces, hperm, -⟩ := hordered (by decide)
  exact ⟨hplaces, hperm⟩

end OfficeConnect.Ingest
