import OfficeConnect.Lib.Rows

/-!
# Tables with a unique key

A table whose rows have distinct keys is a partial map from keys to rows.  Rewriting a row in place
and inserting a row under a fresh key change the map at one key.
-/

namespace Lib

section

variable {α κ : Type*} (key : α → κ)

/-- No two rows have one key. -/
def Unique (rows : List α) : Prop := (rows.map key).Nodup

variable {key} {rows : List α} {n m : ℕ} {a b : α} {f : α → α}

theorem Unique.place_eq (h : Unique key rows) (ha : rows[n]? = some a) (hb : rows[m]? = some b)
    (hkey : key a = key b) : n = m := by
  refine eq_of_nodup_filterMap (g := fun a => some (key a)) ?_ ha hb rfl (by rw [hkey])
  rw [List.filterMap_eq_map']
  exact h

theorem Unique.modify (h : Unique key rows) (hf : ∀ a, key (f a) = key a) (n : ℕ) :
    Unique key (rows.modify n f) := by
  rw [Unique, map_modify_of_eq hf]
  exact h

/-- A query that keeps the key of each row it maps keeps it unique. -/
theorem Unique.filterMap {β : Type*} {g : α → Option β} {key' : β → κ} (h : Unique key rows)
    (hg : ∀ a b, g a = some b → key' b = key a) : Unique key' (rows.filterMap g) := by
  have hsub : ∀ l : List α, ((l.filterMap g).map key').Sublist (l.map key) := by
    intro l
    induction l with
    | nil => simp
    | cons a l ih =>
        cases hga : g a with
        | none =>
            rw [List.filterMap_cons_none hga]
            exact ih.cons _
        | some b =>
            rw [List.filterMap_cons_some hga, List.map_cons, List.map_cons, hg a b hga]
            exact ih.cons_cons _
  exact (hsub rows).nodup h

end

/-! ## The map -/

variable {α κ : Type*} [DecidableEq κ] (key : α → κ)

/-- The row under a key, with its place; the last one where there are several. -/
def rowAt (rows : List α) (k : κ) : Option (ℕ × α) :=
  ((rows.zipIdx.map Prod.swap).filter fun r => key r.2 = k).getLast?

variable {key} {rows : List α} {k : κ} {n : ℕ} {a : α} {f : α → α}

theorem mem_of_rowAt (h : rowAt key rows k = some (n, a)) : rows[n]? = some a ∧ key a = k := by
  have hmem := List.mem_of_getLast? h
  simp only [List.mem_filter, List.mem_map, decide_eq_true_eq] at hmem
  obtain ⟨⟨⟨b, m⟩, hrow, hswap⟩, hkey⟩ := hmem
  obtain ⟨rfl, rfl⟩ := Prod.mk.inj hswap
  exact ⟨List.mem_zipIdx_iff_getElem?.1 hrow, hkey⟩

theorem exists_rowAt (key : α → κ) (h : rows[n]? = some a) :
    ∃ r, rowAt key rows (key a) = some r := by
  have hmem : (n, a) ∈ (rows.zipIdx.map Prod.swap).filter fun r => key r.2 = key a := by
    refine List.mem_filter.2 ⟨?_, by simp⟩
    exact List.mem_map.2 ⟨(a, n), List.mem_zipIdx_iff_getElem?.2 h, rfl⟩
  exact ⟨_, List.getLast?_eq_some_getLast (List.ne_nil_of_mem hmem)⟩

/-- In a keyed table the lookup is the row. -/
theorem Unique.rowAt_eq_some (h : Unique key rows) :
    rowAt key rows k = some (n, a) ↔ rows[n]? = some a ∧ key a = k := by
  refine ⟨mem_of_rowAt, ?_⟩
  rintro ⟨hrow, rfl⟩
  obtain ⟨⟨m, b⟩, hat⟩ := exists_rowAt key hrow
  obtain ⟨hb, hkey⟩ := mem_of_rowAt hat
  obtain rfl := h.place_eq hrow hb hkey.symm
  obtain rfl := Option.some.inj (hrow.symm.trans hb)
  exact hat

theorem rowAt_eq_none : rowAt key rows k = none ↔
    ∀ (n : ℕ) (a : α), rows[n]? = some a → key a ≠ k := by
  constructor
  · rintro h n a hrow rfl
    obtain ⟨r, hr⟩ := exists_rowAt key hrow
    rw [h] at hr
    cases hr
  · intro h
    cases hat : rowAt key rows k with
    | none => rfl
    | some r =>
        obtain ⟨hrow, hkey⟩ := mem_of_rowAt hat
        exact absurd hkey (h r.1 r.2 hrow)

/-! ## Writes -/

/-- A rewrite in place changes the row under one key. -/
theorem Unique.rowAt_modify (h : Unique key rows) (hf : ∀ a, key (f a) = key a)
    (ha : rows[n]? = some a) :
    rowAt key (rows.modify n f) k = if key a = k then some (n, f a) else rowAt key rows k := by
  have h' := h.modify hf n
  by_cases hk : key a = k
  · rw [if_pos hk]
    exact h'.rowAt_eq_some.2 ⟨getElem?_modify_self f ha, (hf a).trans hk⟩
  · rw [if_neg hk]
    refine Option.ext fun r => ?_
    obtain ⟨m, b⟩ := r
    rw [h'.rowAt_eq_some, h.rowAt_eq_some]
    by_cases hm : n = m
    · subst hm
      rw [getElem?_modify_self f ha, ha]
      constructor
      · rintro ⟨hb, hkey⟩
        obtain rfl := Option.some.inj hb
        exact absurd ((hf a).symm.trans hkey) hk
      · rintro ⟨hb, hkey⟩
        obtain rfl := Option.some.inj hb
        exact absurd hkey hk
    · rw [List.getElem?_modify_ne f rows hm]

theorem Unique.concat (h : Unique key rows) (hnew : rowAt key rows (key a) = none) :
    Unique key (rows ++ [a]) := by
  rw [Unique, List.map_append, List.map_singleton, ← List.concat_eq_append]
  refine List.Nodup.concat (fun hmem => ?_) h
  obtain ⟨b, hb, hkey⟩ := List.mem_map.1 hmem
  obtain ⟨m, hm⟩ := List.mem_iff_getElem?.1 hb
  exact rowAt_eq_none.1 hnew m b hm hkey

/-- An insertion under a fresh key changes the map there. -/
theorem Unique.rowAt_concat (h : Unique key rows) (hnew : rowAt key rows (key a) = none) :
    rowAt key (rows ++ [a]) k = if key a = k then some (rows.length, a) else rowAt key rows k := by
  have h' := h.concat hnew
  by_cases hk : key a = k
  · rw [if_pos hk]
    exact h'.rowAt_eq_some.2 ⟨by simp, hk⟩
  · rw [if_neg hk]
    refine Option.ext fun r => ?_
    obtain ⟨m, b⟩ := r
    rw [h'.rowAt_eq_some, h.rowAt_eq_some]
    constructor
    · rintro ⟨hrow, hkey⟩
      rcases getElem?_concat_eq_some hrow with hold | ⟨-, rfl⟩
      · exact ⟨hold, hkey⟩
      · exact absurd hkey hk
    · rintro ⟨hrow, hkey⟩
      exact ⟨by rw [List.getElem?_append_left (List.getElem?_eq_some_iff.1 hrow).1, hrow], hkey⟩

end Lib
