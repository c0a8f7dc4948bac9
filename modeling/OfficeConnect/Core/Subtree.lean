import OfficeConnect.Core.OrgUnits
import OfficeConnect.Lib.Walk

/-!
# The subtree below a unit

A list asks the scope question backwards: which units lie below a grant.  The walk down has the
same stops as the walk up, deleted rows and the depth guard, so on any table, cycles included, a
unit is found below a root exactly when the root is found above the unit.
-/

namespace OfficeConnect

open Lib

namespace Directory

variable (dir : Directory)

/-- The rows of one level and of those below it, at most `fuel` levels, a row per way down. -/
def subtreeFrom : ℕ → List ℕ → List ℕ
  | 0, _ => []
  | fuel + 1, level => level ++ subtreeFrom fuel (level.flatMap fun unit =>
      (dir.orgUnits.filter fun o => o.parentOrgUnitId = some unit ∧ ¬ o.deleted).map (·.id))

/-- The live roots and everything below them. -/
def descendantsOrSelf (roots : List ℕ) : List ℕ :=
  (dir.subtreeFrom (maxAncestryDepth + 1)
    ((dir.orgUnits.filter fun o => o.id ∈ roots ∧ ¬ o.deleted).map (·.id))).dedup

/-- The id is the primary key of the table. -/
def Keyed : Prop := (dir.orgUnits.map (·.id)).Nodup

instance : Decidable dir.Keyed := inferInstanceAs (Decidable (dir.orgUnits.map (·.id)).Nodup)

/-- The unit has a live row. -/
def Live (unit : ℕ) : Prop := ∃ o ∈ dir.orgUnits, o.id = unit ∧ ¬ o.deleted

/-- The live row of the unit points to the parent. -/
def Under (unit parent : ℕ) : Prop :=
  ∃ o ∈ dir.orgUnits, o.id = unit ∧ ¬ o.deleted ∧ o.parentOrgUnitId = some parent

variable {dir} {unit root : ℕ} {n : ℕ}

/-- A live row is found by its key. -/
theorem Keyed.find_live (h : dir.Keyed) {o : OrgUnit} (ho : o ∈ dir.orgUnits) (hlive : ¬ o.deleted) :
    (dir.orgUnits.find? fun o' => o'.id = o.id ∧ ¬ o'.deleted) = some o := by
  cases hfind : dir.orgUnits.find? fun o' => o'.id = o.id ∧ ¬ o'.deleted with
  | none =>
      have hno := List.find?_eq_none.1 hfind o ho
      simp [hlive] at hno
  | some other =>
      have hother := List.find?_some hfind
      rw [decide_eq_true_eq] at hother
      rw [List.inj_on_of_nodup_map h (List.mem_of_find?_eq_some hfind) ho hother.1]

/-- Only a live row is walked from. -/
theorem Under.live {parent : ℕ} (h : dir.Under unit parent) : dir.Live unit := by
  obtain ⟨o, ho, hid, hlive, -⟩ := h
  exact ⟨o, ho, hid, hlive⟩

theorem Keyed.under (h : dir.Keyed) {o : OrgUnit} (ho : o ∈ dir.orgUnits) (hlive : ¬ o.deleted)
    {parent : ℕ} : dir.Under o.id parent ↔ o.parentOrgUnitId = some parent := by
  constructor
  · rintro ⟨o', ho', hid, -, hparent⟩
    rwa [List.inj_on_of_nodup_map h ho' ho hid] at hparent
  · exact fun hparent => ⟨o, ho, rfl, hlive, hparent⟩

/-- One row of the walk up. -/
theorem mem_ancestryFrom_succ (h : dir.Keyed) :
    root ∈ dir.ancestryFrom (n + 1) (some unit) ↔ dir.Live unit ∧
      (unit = root ∨ ∃ parent, dir.Under unit parent ∧ root ∈ dir.ancestryFrom n (some parent)) := by
  by_cases hunit : dir.Live unit
  · obtain ⟨o, ho, rfl, hlive⟩ := hunit
    have hself : dir.Live o.id := ⟨o, ho, rfl, hlive⟩
    simp only [ancestryFrom, h.find_live ho hlive, List.mem_cons, hself, true_and, h.under ho hlive,
      eq_comm (a := root)]
    cases hparent : o.parentOrgUnitId with
    | none => cases n <;> simp [ancestryFrom]
    | some parent => simp
  · have hfind : (dir.orgUnits.find? fun o => o.id = unit ∧ ¬ o.deleted) = none := by
      refine List.find?_eq_none.2 fun o ho hrow => hunit ?_
      rw [decide_eq_true_eq] at hrow
      exact ⟨o, ho, hrow⟩
    rw [ancestryFrom, hfind]
    simp [hunit]

/-- The walk up finds the live units within its bound. -/
theorem mem_ancestryFrom (h : dir.Keyed) :
    root ∈ dir.ancestryFrom (n + 1) (some unit) ↔
      Within dir.Under n unit root ∧ dir.Live root := by
  induction n generalizing unit with
  | zero =>
      rw [mem_ancestryFrom_succ h]
      simp only [ancestryFrom, List.not_mem_nil, and_false, exists_false, or_false, Within]
      constructor
      · rintro ⟨hlive, rfl⟩
        exact ⟨rfl, hlive⟩
      · rintro ⟨rfl, hlive⟩
        exact ⟨hlive, rfl⟩
  | succ n ih =>
      rw [mem_ancestryFrom_succ h, Within]
      simp only [ih]
      constructor
      · rintro ⟨hlive, rfl | ⟨parent, hup, hwithin, hroot⟩⟩
        · exact ⟨.inl rfl, hlive⟩
        · exact ⟨.inr ⟨parent, hup, hwithin⟩, hroot⟩
      · rintro ⟨rfl | ⟨parent, hup, hwithin⟩, hroot⟩
        · exact ⟨hroot, .inl rfl⟩
        · exact ⟨hup.live, .inr ⟨parent, hup, hwithin, hroot⟩⟩

/-- The walk down finds what lies below its first level within its bound. -/
theorem mem_subtreeFrom {level : List ℕ} :
    unit ∈ dir.subtreeFrom (n + 1) level ↔
      ∃ root ∈ level, Within (fun parent child => dir.Under child parent) n root unit := by
  induction n generalizing level with
  | zero => simp [subtreeFrom, Within]
  | succ n ih =>
      rw [subtreeFrom, List.mem_append, ih]
      constructor
      · rintro (hself | ⟨child, hchild, hwithin⟩)
        · exact ⟨unit, hself, .inl rfl⟩
        · obtain ⟨parent, hparent, hchild⟩ := List.mem_flatMap.1 hchild
          obtain ⟨o, ho, rfl⟩ := List.mem_map.1 hchild
          obtain ⟨ho, hrow⟩ := List.mem_filter.1 ho
          rw [decide_eq_true_eq] at hrow
          exact ⟨parent, hparent, .inr ⟨o.id, ⟨o, ho, rfl, hrow.2, hrow.1⟩, hwithin⟩⟩
      · rintro ⟨root, hroot, rfl | ⟨child, ⟨o, ho, rfl, hlive, hparent⟩, hwithin⟩⟩
        · exact .inl hroot
        · refine .inr ⟨o.id, List.mem_flatMap.2 ⟨root, hroot, List.mem_map_of_mem ?_⟩, hwithin⟩
          exact List.mem_filter.2 ⟨ho, decide_eq_true ⟨hparent, hlive⟩⟩

theorem mem_liveRoots {roots : List ℕ} :
    root ∈ (dir.orgUnits.filter fun o => o.id ∈ roots ∧ ¬ o.deleted).map (·.id) ↔
      root ∈ roots ∧ dir.Live root := by
  constructor
  · intro hroot
    obtain ⟨o, ho, rfl⟩ := List.mem_map.1 hroot
    obtain ⟨ho, hrow⟩ := List.mem_filter.1 ho
    rw [decide_eq_true_eq] at hrow
    exact ⟨hrow.1, o, ho, rfl, hrow.2⟩
  · rintro ⟨hroot, o, ho, rfl, hlive⟩
    exact List.mem_map_of_mem (List.mem_filter.2 ⟨ho, decide_eq_true ⟨hroot, hlive⟩⟩)

/-- A unit is below one of the roots exactly when one of the roots is above the unit. -/
theorem mem_descendantsOrSelf (h : dir.Keyed) {roots : List ℕ} :
    unit ∈ dir.descendantsOrSelf roots ↔
      ∃ root ∈ roots, root ∈ dir.ancestorsOrSelf (some unit) := by
  unfold descendantsOrSelf ancestorsOrSelf
  simp only [List.mem_dedup, mem_subtreeFrom, mem_ancestryFrom h, within_swap, mem_liveRoots,
    and_assoc, and_comm (a := dir.Live _)]

end Directory

end OfficeConnect
