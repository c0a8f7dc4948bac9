import OfficeConnect.Lib.Unique

/-!
# Many writes, one a key

A list of writes, each under a key of its own, is carried out one after the other: every key then has
what its own write made of the row it had before.
-/

namespace Lib

variable {α κ π : Type*} [DecidableEq κ] {key : α → κ}

/-- The step writes under one key: the table stays keyed, grows at its end only, and the other keys
keep their rows. -/
structure Writes (key : α → κ) (k : κ) (rows rows' : List α) : Prop where
  unique : Unique key rows'
  length_le : rows.length ≤ rows'.length
  other : ∀ j, j ≠ k → rowAt key rows' j = rowAt key rows j

theorem writes_concat {rows : List α} {a : α} (h : Unique key rows)
    (hnew : rowAt key rows (key a) = none) : Writes key (key a) rows (rows ++ [a]) where
  unique := h.concat hnew
  length_le := by simp
  other j hj := by rw [h.rowAt_concat hnew, if_neg hj.symm]

theorem writes_modify {rows : List α} {n : ℕ} {a : α} {f : α → α} (h : Unique key rows)
    (hf : ∀ a, key (f a) = key a) (ha : rows[n]? = some a) :
    Writes key (key a) rows (rows.modify n f) where
  unique := h.modify hf n
  length_le := by simp
  other j hj := by rw [h.rowAt_modify hf ha, if_neg hj.symm]

section

variable {step : List α → π → List α} {keyOf : π → κ} {Ready : Option (ℕ × α) → π → Prop}

/-- The table as a write of the list finds it, and what the key has in the end. -/
theorem foldl_writes
    (hstep : ∀ rows p, Unique key rows → Ready (rowAt key rows (keyOf p)) p →
      Writes key (keyOf p) rows (step rows p))
    (ps : List π) (rows : List α) (hu : Unique key rows) (hkeys : (ps.map keyOf).Nodup)
    (hready : ∀ p ∈ ps, Ready (rowAt key rows (keyOf p)) p) :
    Unique key (ps.foldl step rows) ∧
      (∀ k ∉ ps.map keyOf, rowAt key (ps.foldl step rows) k = rowAt key rows k) ∧
      ∀ p ∈ ps, ∃ mid, Unique key mid ∧ rows.length ≤ mid.length ∧
        rowAt key mid (keyOf p) = rowAt key rows (keyOf p) ∧
        rowAt key (ps.foldl step rows) (keyOf p) = rowAt key (step mid p) (keyOf p) := by
  induction ps generalizing rows with
  | nil => exact ⟨hu, fun _ _ => rfl, by simp⟩
  | cons p ps ih =>
      obtain ⟨hhead, hrest⟩ := List.nodup_cons.1 hkeys
      have hne : ∀ q ∈ ps, keyOf q ≠ keyOf p := fun q hq heq =>
        hhead (heq ▸ List.mem_map_of_mem hq)
      have hwrite := hstep rows p hu (hready p (List.mem_cons_self ..))
      have hready' : ∀ q ∈ ps, Ready (rowAt key (step rows p) (keyOf q)) q := by
        intro q hq
        rw [hwrite.other _ (hne q hq)]
        exact hready q (List.mem_cons_of_mem _ hq)
      obtain ⟨hu', hother, hself⟩ := ih _ hwrite.unique hrest hready'
      rw [List.foldl_cons]
      refine ⟨hu', fun k hk => ?_, fun q hq => ?_⟩
      · rw [List.map_cons, List.mem_cons, not_or] at hk
        rw [hother k hk.2, hwrite.other k hk.1]
      · rcases List.mem_cons.1 hq with rfl | hq
        · exact ⟨rows, hu, le_rfl, rfl, hother _ hhead⟩
        · obtain ⟨mid, hmid, hlength, hrow, hend⟩ := hself q hq
          exact ⟨mid, hmid, hwrite.length_le.trans hlength,
            hrow.trans (hwrite.other _ (hne q hq)), hend⟩

end

end Lib
