import Mathlib.Tactic
import Mathlib.Data.List.Sort

/-!
# Rows of a table

A table is the list of its rows in insertion order.  Queries filter it, sort it or take the first
match; a write replaces the first match or maps over all of them.
-/

namespace Lib

variable {α : Type*}

/-! ## The first match -/

section First

variable (p : α → Bool) (f : α → α)

/-- Rewrite the first row that satisfies `p`. -/
def updateFirst (l : List α) : List α := l.modify (l.findIdx p) f

variable {p f}

theorem findIdx_of_append {as bs : List α} {b : α} (has : ∀ a ∈ as, p a = false)
    (hb : p b = true) : (as ++ b :: bs).findIdx p = as.length := by
  induction as with
  | nil => simp [List.findIdx_cons, hb]
  | cons a as ih =>
      have ha : p a = false := has a (by simp)
      simp [List.findIdx_cons, ha, ih fun x hx => has x (by simp [hx])]

theorem modify_length_append (as bs : List α) (b : α) :
    (as ++ b :: bs).modify as.length f = as ++ f b :: bs := by
  induction as with
  | nil => simp
  | cons a as ih => simp [ih]

/-- The first match splits the table, and only that row is rewritten. -/
theorem updateFirst_of_find {l : List α} {b : α} (h : l.find? p = some b) :
    ∃ as bs, l = as ++ b :: bs ∧ (∀ a ∈ as, p a = false) ∧
      updateFirst p f l = as ++ f b :: bs := by
  obtain ⟨hb, as, bs, rfl, has⟩ := List.find?_eq_some_iff_append.1 h
  have has' : ∀ a ∈ as, p a = false := fun a ha => by simpa using has a ha
  refine ⟨as, bs, rfl, has', ?_⟩
  rw [updateFirst, findIdx_of_append has' hb, modify_length_append]

/-- Rewriting one row rewrites one entry of a column. -/
theorem map_modify {β : Type*} {g : α → β} {h : β → β} (hg : ∀ a, g (f a) = h (g a)) (n : ℕ)
    (l : List α) : (l.modify n f).map g = (l.map g).modify n h := by
  induction n generalizing l with
  | zero => cases l <;> simp [hg]
  | succ n ih => cases l <;> simp [ih]

/-- A column that a rewrite keeps is kept by rewriting one row. -/
theorem map_modify_of_eq {β : Type*} {g : α → β} (hg : ∀ a, g (f a) = g a) (n : ℕ) (l : List α) :
    (l.modify n f).map g = l.map g := by
  rw [map_modify (h := id) hg, List.modify_id]

theorem getElem?_modify_self {l : List α} {n : ℕ} {a : α} (f : α → α) (h : l[n]? = some a) :
    (l.modify n f)[n]? = some (f a) := by
  simp [h]

/-- A column in which the new row agrees with the old one is kept. -/
theorem map_modify_of_eq_at {β : Type*} {g : α → β} {l : List α} {n : ℕ} {a b : α}
    (h : l[n]? = some a) (hg : g b = g a) : (l.modify n fun _ => b).map g = l.map g := by
  refine List.ext_getElem? fun m => ?_
  rw [List.getElem?_map, List.getElem?_map]
  by_cases hm : n = m
  · subst hm
    rw [getElem?_modify_self _ h, h, Option.map_some, Option.map_some, hg]
  · rw [List.getElem?_modify_ne _ _ hm]

/-- What a rewrite does depends on the row it finds. -/
theorem modify_congr_self {l : List α} {n : ℕ} {a : α} (h : l[n]? = some a) (f : α → α) :
    l.modify n f = l.modify n fun _ => f a := by
  refine List.ext_getElem? fun m => ?_
  by_cases hm : n = m
  · subst hm
    rw [getElem?_modify_self _ h, getElem?_modify_self _ h]
  · rw [List.getElem?_modify_ne _ _ hm, List.getElem?_modify_ne _ _ hm]

/-- Writing a row back changes nothing. -/
theorem modify_const_self {l : List α} {n : ℕ} {a : α} (h : l[n]? = some a) :
    (l.modify n fun _ => a) = l := by
  have hid := modify_congr_self h id
  rw [List.modify_id] at hid
  exact hid.symm

/-- A lookup after a rewrite finds the rewritten row at its place, the old row elsewhere. -/
theorem getElem?_modify_eq_some {l : List α} {n m : ℕ} {b : α} (h : (l.modify n f)[m]? = some b) :
    (m = n ∧ ∃ a, l[n]? = some a ∧ b = f a) ∨ (m ≠ n ∧ l[m]? = some b) := by
  by_cases hm : m = n
  · subst hm
    obtain ⟨a, ha, rfl⟩ : ∃ a, l[m]? = some a ∧ f a = b := by simpa using h
    exact .inl ⟨rfl, a, ha, rfl⟩
  · rw [List.getElem?_modify_ne f l (Ne.symm hm)] at h
    exact .inr ⟨hm, h⟩

/-- A lookup after an insertion finds an old row, or the new one at the end. -/
theorem getElem?_concat_eq_some {l : List α} {m : ℕ} {a b : α} (h : (l ++ [a])[m]? = some b) :
    l[m]? = some b ∨ (m = l.length ∧ b = a) := by
  rcases Nat.lt_trichotomy m l.length with hm | rfl | hm
  · rw [List.getElem?_append_left hm] at h
    exact .inl h
  · exact .inr ⟨rfl, by simpa using h.symm⟩
  · rw [List.getElem?_append_right hm.le, List.getElem?_singleton, if_neg (by omega)] at h
    cases h

/-- A column that a rewrite keeps on the row it finds is kept. -/
theorem filterMap_modify_of_eq {β : Type*} {g : α → Option β} {l : List α} {n : ℕ} {a : α}
    (h : l[n]? = some a) (hg : g (f a) = g a) : (l.modify n f).filterMap g = l.filterMap g := by
  have hmap : (l.modify n f).map g = l.map g := by
    refine List.ext_getElem? fun m => ?_
    by_cases hm : n = m
    · subst hm
      simp [h, hg]
    · simp [hm]
  have hcolumn := congrArg (List.filterMap id) hmap
  rwa [List.filterMap_map, List.filterMap_map] at hcolumn

/-- A row that a rewrite takes out of a column leaves the rest of it. -/
theorem filterMap_modify_sublist {β : Type*} {g : α → Option β} (n : ℕ) (l : List α)
    (hg : ∀ a ∈ l[n]?, g (f a) = none) :
    ((l.modify n f).filterMap g).Sublist (l.filterMap g) := by
  induction l generalizing n with
  | nil => simp
  | cons a l ih =>
      cases n with
      | zero =>
          have hnone : g (f a) = none := hg a (by simp)
          rw [List.modify_zero_cons, List.filterMap_cons_none hnone, List.filterMap_cons]
          split
          · exact .refl _
          · exact List.sublist_cons_self _ _
      | succ n =>
          have hrest := ih n fun b hb => hg b (by simpa using hb)
          rw [List.modify_succ_cons, List.filterMap_cons, List.filterMap_cons]
          split
          · exact hrest
          · exact hrest.cons_cons _

theorem map_filter_eq_filterMap {β : Type*} (p : α → Bool) (g : α → β) (l : List α) :
    (l.filter p).map g = l.filterMap fun a => if p a then some (g a) else none := by
  induction l with
  | nil => rfl
  | cons a l ih =>
      by_cases ha : p a
      · simp [ha, ih]
      · simp [ha, ih]

/-- A value of a unique column belongs to one row. -/
theorem eq_of_nodup_filterMap {β : Type*} {g : α → Option β} {l : List α}
    (h : (l.filterMap g).Nodup) {n m : ℕ} {a b : α} {x : β} (ha : l[n]? = some a)
    (hb : l[m]? = some b) (hga : g a = some x) (hgb : g b = some x) : n = m := by
  induction l generalizing n m with
  | nil => simp at ha
  | cons c l ih =>
      have htail : (l.filterMap g).Nodup := by
        rw [List.filterMap_cons] at h
        split at h
        · exact h
        · exact (List.nodup_cons.1 h).2
      have hhead : g c = some x → ∀ (k : ℕ) (d : α), l[k]? = some d → g d ≠ some x := by
        intro hc k d hk hd
        rw [List.filterMap_cons_some hc] at h
        exact (List.nodup_cons.1 h).1
          (List.mem_filterMap.2 ⟨d, List.mem_of_getElem? hk, hd⟩)
      cases n with
      | zero =>
          cases m with
          | zero => rfl
          | succ m =>
              simp only [List.getElem?_cons_zero, Option.some.injEq] at ha
              exact absurd hgb (hhead (ha ▸ hga) m b (by simpa using hb))
      | succ n =>
          cases m with
          | zero =>
              simp only [List.getElem?_cons_zero, Option.some.injEq] at hb
              exact absurd hga (hhead (hb ▸ hgb) n a (by simpa using ha))
          | succ m => exact congrArg Nat.succ (ih htail (by simpa using ha) (by simpa using hb))

theorem map_updateFirst {β : Type*} {g : α → β} (hg : ∀ a, g (f a) = g a) (l : List α) :
    (updateFirst p f l).map g = l.map g := map_modify_of_eq hg _ l

end First

/-! ## Keys with the place of a row -/

/-- Keys made of the rows, each naming the place of its row, name different places. -/
theorem nodup_places {β : Type*} {g : α × ℕ → Option β} {place : β → ℕ}
    (hplace : ∀ row key, g row = some key → place key = row.2) (rows : List α) :
    ((rows.zipIdx.filterMap g).map place).Nodup := by
  have hsub : ((rows.zipIdx.filterMap g).map place).Sublist (rows.zipIdx.map Prod.snd) := by
    induction rows.zipIdx with
    | nil => simp
    | cons row rest ih =>
        cases hrow : g row with
        | none =>
            rw [List.filterMap_cons_none hrow]
            exact ih.cons _
        | some key =>
            rw [List.filterMap_cons_some hrow, List.map_cons, List.map_cons, hplace row key hrow]
            exact ih.cons_cons _
  exact hsub.nodup (by simpa using List.nodup_range')

/-! ## Tables sorted alike -/

section Sorted

variable {β : Type*} {r : α → α → Prop} {s : β → β → Prop} [DecidableRel r] [DecidableRel s]
  {R : α → β → Prop}

theorem forall₂_orderedInsert (hR : ∀ a a' b b', R a b → R a' b' → (r a a' ↔ s b b')) {a : α} {b : β}
    (hab : R a b) {l : List α} {l' : List β} (h : List.Forall₂ R l l') :
    List.Forall₂ R (l.orderedInsert r a) (l'.orderedInsert s b) := by
  induction h with
  | nil => exact .cons hab .nil
  | @cons a' b' l l' hab' hl ih =>
      have hiff := hR a a' b b' hab hab'
      rw [List.orderedInsert_cons, List.orderedInsert_cons]
      by_cases hle : r a a'
      · rw [if_pos hle, if_pos (hiff.1 hle)]
        exact .cons hab (.cons hab' hl)
      · rw [if_neg hle, if_neg (hle ∘ hiff.2)]
        exact .cons hab' ih

/-- Rows that correspond and are ordered alike correspond when sorted. -/
theorem forall₂_insertionSort (hR : ∀ a a' b b', R a b → R a' b' → (r a a' ↔ s b b')) {l : List α}
    {l' : List β} (h : List.Forall₂ R l l') :
    List.Forall₂ R (l.insertionSort r) (l'.insertionSort s) := by
  induction h with
  | nil => exact .nil
  | cons hab _ ih => exact forall₂_orderedInsert hR hab ih

end Sorted

end Lib
