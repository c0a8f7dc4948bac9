import OfficeConnect.Ingest.Service

/-!
# Reading a batch

When the reading of a batch raises, and what the specs of a batch without errors are: one for each
row, under keys that are all distinct.
-/

namespace OfficeConnect.Ingest

open Lib

variable {Raw Spec : Type} {b : Batch Raw Spec} {acc acc' : List Spec × List Problem} {raw : Raw}
  {raws : List Raw} {specs : List Spec} {i : ℕ}

namespace Batch

/-- Every value the loop reads converts: the key of each row, and the other fields of a row whose
key is there and new. -/
def Converts (b : Batch Raw Spec) : List String → List Raw → Prop
  | _, [] => True
  | seen, raw :: raws =>
      ∃ key, norm (b.key raw) = .ok key ∧
        match key with
        | none => Converts b seen raws
        | some key =>
            if key ∈ seen then Converts b seen raws
            else (∃ spec, b.spec raw key = .ok spec) ∧ Converts b (seen ++ [key]) raws

/-- The row reads as the spec. -/
def Reads (b : Batch Raw Spec) (raw : Raw) (spec : Spec) : Prop :=
  norm (b.key raw) = .ok (some (b.keyOf spec)) ∧ b.spec raw (b.keyOf spec) = .ok spec

/-- Nothing is wrong with the specs, each after the ones before it. -/
def NoProblems (b : Batch Raw Spec) : List Spec → List Spec → Prop
  | _, [] => True
  | before, spec :: specs => b.problems before spec = [] ∧ NoProblems b (before ++ [spec]) specs

/-- The spec of a row has the key it was read under. -/
def KeepsKey (b : Batch Raw Spec) : Prop :=
  ∀ raw key spec, b.spec raw key = .ok spec → b.keyOf spec = key

/-! ## When reading raises -/

theorem readRow_none (h : norm (b.key raw) = .ok none) :
    b.readRow acc (raw, i) = .ok (acc.1, acc.2 ++ [b.missing i]) := by
  simp only [readRow, h, ok_bind]
  rfl

theorem readRow_duplicate {key : String} (h : norm (b.key raw) = .ok (some key))
    (hdup : key ∈ acc.1.map b.keyOf) :
    b.readRow acc (raw, i) = .ok (acc.1, acc.2 ++ [b.duplicate key]) := by
  simp only [readRow, h, ok_bind, if_pos hdup]
  rfl

theorem readRow_new {key : String} (h : norm (b.key raw) = .ok (some key))
    (hnew : key ∉ acc.1.map b.keyOf) :
    b.readRow acc (raw, i) = (b.spec raw key).map fun spec =>
      (acc.1 ++ [spec], acc.2 ++ b.problems acc.1 spec) := by
  simp only [readRow, h, ok_bind, if_neg hnew]
  cases b.spec raw key <;> rfl

theorem exists_read_iff (hkeeps : b.KeepsKey) {seen : List String}
    (hseen : acc.1.map b.keyOf = seen) :
    (∃ out, (raws.zipIdx i).foldlM b.readRow acc = .ok out) ↔ b.Converts seen raws := by
  induction raws generalizing acc i seen with
  | nil => simp [Converts, pure, Except.pure]
  | cons raw raws ih =>
      simp only [List.zipIdx_cons, List.foldlM_cons, bind_eq_ok, Converts]
      cases hnorm : norm (b.key raw) with
      | error e => simp [readRow, hnorm]
      | ok key =>
          cases key with
          | none =>
              simpa [-Prod.exists, readRow_none hnorm] using
                @ih (acc.1, acc.2 ++ [b.missing i]) (i + 1) seen hseen
          | some key =>
              by_cases hdup : key ∈ seen
              · rw [readRow_duplicate hnorm (hseen ▸ hdup)]
                simpa [-Prod.exists, hdup] using
                  @ih (acc.1, acc.2 ++ [b.duplicate key]) (i + 1) seen hseen
              · rw [readRow_new hnorm (hseen ▸ hdup)]
                cases hspec : b.spec raw key with
                | error e => simp [Except.map, hdup, hspec]
                | ok spec =>
                    have hkey := hkeeps raw key spec hspec
                    have hnext : (acc.1 ++ [spec]).map b.keyOf = seen ++ [key] := by
                      rw [List.map_append, hseen, List.map_singleton, hkey]
                    simpa [-Prod.exists, Except.map, hdup, hspec] using
                      @ih (acc.1 ++ [spec], _) (i + 1) _ hnext

/-! ## A batch without errors -/

/-- What one row can do. -/
theorem readRow_cases (hkeeps : b.KeepsKey) (h : b.readRow acc (raw, i) = .ok acc') :
    (∃ e, acc' = (acc.1, acc.2 ++ [e])) ∨
      ∃ spec, b.Reads raw spec ∧ b.keyOf spec ∉ acc.1.map b.keyOf ∧
        acc' = (acc.1 ++ [spec], acc.2 ++ b.problems acc.1 spec) := by
  cases hnorm : norm (b.key raw) with
  | error e => simp [readRow, hnorm] at h
  | ok key =>
      cases key with
      | none => exact .inl ⟨_, Except.ok.inj (h.symm.trans (readRow_none hnorm))⟩
      | some key =>
          by_cases hdup : key ∈ acc.1.map b.keyOf
          · exact .inl ⟨_, Except.ok.inj (h.symm.trans (readRow_duplicate hnorm hdup))⟩
          · rw [readRow_new hnorm hdup] at h
            cases hspec : b.spec raw key with
            | error e => simp [hspec, Except.map] at h
            | ok spec =>
                have hkey := hkeeps raw key spec hspec
                subst hkey
                rw [hspec] at h
                exact .inr ⟨spec, ⟨hnorm, hspec⟩, hdup, (Except.ok.inj h).symm⟩

theorem errors_prefix (hkeeps : b.KeepsKey) (h : (raws.zipIdx i).foldlM b.readRow acc = .ok acc') :
    acc.2 <+: acc'.2 := by
  induction raws generalizing acc i with
  | nil =>
      cases h
      exact List.prefix_rfl
  | cons raw raws ih =>
      simp only [List.zipIdx_cons, List.foldlM_cons, bind_eq_ok] at h
      obtain ⟨mid, hrow, hrest⟩ := h
      refine List.IsPrefix.trans ?_ (ih hrest)
      rcases readRow_cases hkeeps hrow with ⟨e, rfl⟩ | ⟨spec, -, -, rfl⟩
      · exact List.prefix_append ..
      · exact List.prefix_append ..

theorem nodup_concat_iff {before : List Spec} {spec : Spec} (h : (before.map b.keyOf).Nodup) :
    ((before ++ [spec]).map b.keyOf).Nodup ↔ b.keyOf spec ∉ before.map b.keyOf := by
  rw [List.map_append, List.map_singleton, List.nodup_append]
  simp [h]

/-- A batch reads without an error exactly when each row reads as a spec, the keys are distinct and
nothing is wrong with the specs. -/
theorem read_eq_nil (hkeeps : b.KeepsKey) {before all : List Spec}
    (hbefore : (before.map b.keyOf).Nodup) :
    (raws.zipIdx i).foldlM b.readRow (before, []) = .ok (all, []) ↔
      ∃ specs, all = before ++ specs ∧ List.Forall₂ b.Reads raws specs ∧
        (all.map b.keyOf).Nodup ∧ b.NoProblems before specs := by
  induction raws generalizing before i with
  | nil =>
      simp only [List.zipIdx_nil, List.foldlM_nil, pure_eq_ok, List.forall₂_nil_left_iff]
      constructor
      · rintro ⟨⟩
        exact ⟨[], by simp, rfl, hbefore, trivial⟩
      · rintro ⟨specs, rfl, rfl, -, -⟩
        rw [List.append_nil]
  | cons raw raws ih =>
      simp only [List.zipIdx_cons, List.foldlM_cons, bind_eq_ok]
      constructor
      · rintro ⟨mid, hrow, hrest⟩
        rcases readRow_cases hkeeps hrow with ⟨e, rfl⟩ | ⟨spec, hreads, hnew, rfl⟩
        · have := errors_prefix hkeeps hrest
          simp at this
        · have hnone : b.problems before spec = [] := by
            have := errors_prefix hkeeps hrest
            simpa using this
          simp only [hnone, List.append_nil] at hrest
          obtain ⟨specs, rfl, hreadsAll, hnodup, hrest⟩ :=
            (ih ((nodup_concat_iff hbefore).2 hnew)).1 hrest
          exact ⟨spec :: specs, by simp, .cons hreads hreadsAll, hnodup, hnone, hrest⟩
      · rintro ⟨specs, rfl, hreadsAll, hnodup, hproblems⟩
        cases hreadsAll with
        | @cons _ spec _ specs hreads hreadsAll =>
            obtain ⟨hnone, hrest⟩ := hproblems
            rw [List.append_cons] at hnodup
            have hconcat : ((before ++ [spec]).map b.keyOf).Nodup := by
              rw [List.map_append] at hnodup
              exact (List.nodup_append.1 hnodup).1
            refine ⟨(before ++ [spec], []), ?_, ?_⟩
            · have hrow : b.readRow (before, []) (raw, i) = _ :=
                readRow_new hreads.1 ((nodup_concat_iff hbefore).1 hconcat)
              rw [hrow, hreads.2]
              simp [Except.map, hnone]
            · exact (ih hconcat).2 ⟨specs, by simp, hreadsAll, by simpa using hnodup, hrest⟩

theorem read_eq_ok_nil (hkeeps : b.KeepsKey) {specs : List Spec} :
    b.read raws = .ok (specs, []) ↔ List.Forall₂ b.Reads raws specs ∧
      (specs.map b.keyOf).Nodup ∧ b.NoProblems [] specs := by
  have hnil : (([] : List Spec).map b.keyOf).Nodup := List.nodup_nil
  rw [read, read_eq_nil hkeeps hnil]
  simp

end Batch

/-! ## The two batches -/

theorem unitBatch_keepsKey (lower : String → String) : (unitBatch lower).KeepsKey := by
  intro raw key spec h
  simp only [unitBatch, readSpec, bind_eq_ok, pure_eq_ok] at h
  obtain ⟨_, -, _, -, _, -, _, -, _, -, rfl⟩ := h
  rfl

theorem unitBatch_noProblems {lower : String → String} {before specs : List UnitSpec} :
    (unitBatch lower).NoProblems before specs ↔ ∀ spec ∈ specs, specProblems spec = [] := by
  induction specs generalizing before with
  | nil => simp [Batch.NoProblems]
  | cons spec specs ih =>
      rw [Batch.NoProblems, ih, List.forall_mem_cons]
      rfl

theorem specProblems_eq_nil {spec : UnitSpec} : specProblems spec = [] ↔
    (spec.kind.bind OrgUnitKind.ofText?).isSome ∧ spec.name.isSome := by
  unfold specProblems
  cases spec.kind.bind OrgUnitKind.ofText? <;> cases spec.name <;> simp

theorem seenEmails_append (lower : String → String) (a b : List StaffSpec) :
    seenEmails lower (a ++ b) = seenEmails lower a ++ seenEmails lower b := List.filterMap_append

theorem staffProblems_eq_nil {lower : String → String} {before : List StaffSpec} {spec : StaffSpec}
    (hbefore : (seenEmails lower before).Nodup) :
    staffProblems lower before spec = [] ↔ (spec.givenName.isSome ∧ spec.surname.isSome) ∧
      (seenEmails lower (before ++ [spec])).Nodup := by
  have hnames : (if spec.givenName.isNone ∨ spec.surname.isNone then
      [Problem.namesRequired spec.employeeNo] else []) = [] ↔
        spec.givenName.isSome ∧ spec.surname.isSome := by
    cases spec.givenName <;> cases spec.surname <;> simp
  have hemails : ((spec.email.filter fun email => lower email ∈ seenEmails lower before).toList.map
      Problem.duplicateEmail) = [] ↔ (seenEmails lower (before ++ [spec])).Nodup := by
    rw [seenEmails_append, List.nodup_append]
    cases hemail : spec.email with
    | none =>
        have hself : seenEmails lower [spec] = [] := by simp [seenEmails, hemail]
        simp [hself, hbefore]
    | some email =>
        have hself : seenEmails lower [spec] = [lower email] := by simp [seenEmails, hemail]
        rw [hself]
        by_cases hseen : lower email ∈ seenEmails lower before
        · simp [Option.filter, hseen]
        · have hne : ∀ a ∈ seenEmails lower before, a ≠ lower email := fun a ha heq => hseen (heq ▸ ha)
          simpa [Option.filter, hseen, hbefore] using hne
  rw [staffProblems, List.append_eq_nil_iff, hnames, hemails]

theorem staffBatch_noProblems {lower : String → String} {before specs : List StaffSpec}
    (hbefore : (seenEmails lower before).Nodup) :
    (staffBatch lower).NoProblems before specs ↔
      (∀ spec ∈ specs, spec.givenName.isSome ∧ spec.surname.isSome) ∧
        (seenEmails lower (before ++ specs)).Nodup := by
  induction specs generalizing before with
  | nil => simp [Batch.NoProblems, hbefore]
  | cons spec specs ih =>
      have hproblems : (staffBatch lower).problems before spec = [] ↔ _ :=
        staffProblems_eq_nil hbefore
      have hcons : before ++ spec :: specs = before ++ [spec] ++ specs := List.append_cons ..
      rw [Batch.NoProblems, List.forall_mem_cons, hcons]
      by_cases hfresh : (seenEmails lower (before ++ [spec])).Nodup
      · rw [hproblems, ih hfresh]
        tauto
      · have hdup : ¬ (seenEmails lower (before ++ [spec] ++ specs)).Nodup := by
          rw [seenEmails_append]
          exact fun hnodup => hfresh (List.nodup_append.1 hnodup).1
        tauto

theorem staffBatch_keepsKey (lower : String → String) : (staffBatch lower).KeepsKey := by
  intro raw key spec h
  simp only [staffBatch, readStaffSpec, bind_eq_ok, pure_eq_ok] at h
  obtain ⟨_, -, _, -, _, -, _, -, _, -, _, -, _, -, _, -, _, -, _, -, rfl⟩ := h
  rfl

end OfficeConnect.Ingest
