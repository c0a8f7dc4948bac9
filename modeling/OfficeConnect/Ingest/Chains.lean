import OfficeConnect.Ingest.Service
import OfficeConnect.Lib.Climb

/-!
# Parent chains

The cycle check walks up from every unit of the feed until the chain leaves the feed, comes back or
is too long.  A chain that comes back never leaves the feed, so what the check reports are the units
whose chain goes on for more steps than the limit.
-/

namespace OfficeConnect.Ingest

open Lib Relation

variable {specs : List UnitSpec} {spec : UnitSpec} {code parent : String}

/-! ## Lookups -/

theorem specOf_eq_none : specOf specs code = none ↔ code ∉ specs.map (·.code) := by
  simp [specOf]

theorem specOf_isSome : (specOf specs code).isSome ↔ code ∈ specs.map (·.code) := by
  rw [← not_iff_not, ← specOf_eq_none, Option.not_isSome_iff_eq_none]

theorem specOf_of_mem (hcodes : (specs.map (·.code)).Nodup) (h : spec ∈ specs) :
    specOf specs spec.code = some spec := by
  cases hfind : specOf specs spec.code with
  | none => exact absurd (List.mem_map_of_mem h) (specOf_eq_none.1 hfind)
  | some other =>
      have hcode : other.code = spec.code := by simpa using List.find?_some hfind
      rw [List.inj_on_of_nodup_map hcodes (List.mem_of_find?_eq_some hfind) h hcode]

/-! ## The relation -/

/-- A unit of the feed names another unit of the feed as its parent. -/
def Under (specs : List UnitSpec) (child parent : String) : Prop :=
  ∃ spec ∈ specs, spec.code = child ∧ spec.parentCode = some parent ∧ parent ∈ specs.map (·.code)

/-- A unit has the one parent its row names. -/
theorem under_iff (hcodes : (specs.map (·.code)).Nodup) (h : spec ∈ specs) :
    Under specs spec.code parent ↔
      spec.parentCode = some parent ∧ parent ∈ specs.map (·.code) := by
  constructor
  · rintro ⟨other, hother, hcode, hparent⟩
    obtain rfl := List.inj_on_of_nodup_map hcodes hother h hcode
    exact hparent
  · exact fun hparent => ⟨spec, h, rfl, hparent⟩

/-! ## The check -/

/-- The walk from a unit, with the codes below it seen, stops early exactly when the chain does not
end within the depth that is left. -/
theorem loops_iff (hcodes : (specs.map (·.code)).Nodup) {depth : ℕ} {seen : List String}
    (hspec : spec ∈ specs) (hseen : ∀ c ∈ seen, TransGen (Under specs) c spec.code) :
    loops specs depth seen (some spec.code) = true ↔ Climbs (Under specs) depth spec.code := by
  induction depth generalizing seen spec with
  | zero =>
      rw [loops, specOf_of_mem hcodes hspec]
      simp [Climbs]
  | succ depth ih =>
      rw [loops, specOf_of_mem hcodes hspec]
      by_cases hback : spec.code ∈ seen
      · have hclimbs := climbs_of_cycle (hseen _ hback) (depth + 1)
        simp [hback, hclimbs]
      · simp only [hback, if_false, Climbs, under_iff hcodes hspec]
        cases hparent : spec.parentCode with
        | none => simp [loops]
        | some p =>
            by_cases hp : p ∈ specs.map (·.code)
            · obtain ⟨above, habove, rfl⟩ := List.mem_map.1 hp
              have hstep : Under specs spec.code above.code := (under_iff hcodes hspec).2 ⟨hparent, hp⟩
              have hbelow : ∀ c ∈ spec.code :: seen, TransGen (Under specs) c above.code := by
                intro c hc
                rcases List.mem_cons.1 hc with rfl | hc
                · exact .single hstep
                · exact .tail (hseen c hc) hstep
              rw [ih habove hbelow]
              constructor
              · exact fun hclimbs => ⟨above.code, ⟨rfl, hp⟩, hclimbs⟩
              · rintro ⟨_, ⟨⟨⟩, -⟩, hclimbs⟩
                exact hclimbs
            · have hends : loops specs depth (spec.code :: seen) (some p) = false := by
                unfold loops
                rw [specOf_eq_none.2 hp]
              rw [hends]
              refine iff_of_false Bool.false_ne_true ?_
              rintro ⟨_, ⟨⟨⟩, hmem⟩, -⟩
              exact hp hmem

/-- The check reports the units from which one can climb beyond the limit. -/
theorem mem_detectOrgCycles (hcodes : (specs.map (·.code)).Nodup) {problem : Problem} :
    problem ∈ detectOrgCycles specs ↔ ∃ spec ∈ specs,
      Climbs (Under specs) (maxTreeDepth + 1) spec.code ∧ problem = .parentCycle spec.code := by
  simp only [detectOrgCycles, List.mem_map, List.mem_filter, and_assoc]
  refine exists_congr fun spec => and_congr_right fun hspec => ?_
  rw [loops_iff hcodes hspec (by simp), eq_comm]

/-- The check finds every cycle, at every unit on it. -/
theorem cycle_reported (hcodes : (specs.map (·.code)).Nodup)
    (hcycle : TransGen (Under specs) code code) : .parentCycle code ∈ detectOrgCycles specs := by
  obtain ⟨-, ⟨spec, hspec, rfl, -⟩, -⟩ := TransGen.head'_iff.1 hcycle
  exact (mem_detectOrgCycles hcodes).2 ⟨spec, hspec, climbs_of_cycle hcycle _, rfl⟩

/-- The feed's own parent chains end. -/
structure Loopless (specs : List UnitSpec) : Prop where
  codes : (specs.map (·.code)).Nodup
  ends : detectOrgCycles specs = []

theorem Loopless.acyclic (h : Loopless specs) : Acyclic (Under specs) := by
  intro code hcycle
  have hreported := cycle_reported h.codes hcycle
  rw [h.ends] at hreported
  cases hreported

end OfficeConnect.Ingest
