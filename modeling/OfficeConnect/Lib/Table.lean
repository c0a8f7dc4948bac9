import Mathlib.Data.List.Find
import Mathlib.Tactic

/-!
# Upserts by key into a table

A table is a list of rows with a primary key `id` and a business key `key` that several rows may
share; the row of a key is the last one.  An upsert writes over the row of its key, or appends.
-/

namespace Lib

variable {R κ : Type*} [DecidableEq κ] (key : R → κ) (id : R → ℕ)

/-- A dictionary over the rows: the last row of a key stays. -/
def lastWith (rows : List R) (k : κ) : Option R := rows.reverse.find? fun r => key r = k

/-- Write over the row with the id. -/
def overwrite (rows : List R) (row : R) : List R := rows.map fun r => if id r = id row then row else r

inductive Upserted (rows : List R) (row : R) : List R → Prop where
  | insert : lastWith key rows (key row) = none → (∀ r ∈ rows, id r ≠ id row) →
      Upserted rows row (rows ++ [row])
  | update (old : R) : lastWith key rows (key row) = some old → id row = id old →
      Upserted rows row (overwrite id rows row)

/-- Upserts one after the other. -/
inductive UpsertedAll : List R → List R → List R → Prop where
  | nil (rows : List R) : UpsertedAll rows [] rows
  | cons {rows mid rows' written : List R} {row : R} : Upserted key id rows row mid →
      UpsertedAll mid written rows' → UpsertedAll rows (row :: written) rows'

variable {key id} {rows rows' written : List R} {row r old : R} {k : κ}

theorem mem_of_lastWith (h : lastWith key rows k = some r) : r ∈ rows ∧ key r = k :=
  ⟨List.mem_reverse.1 (List.mem_of_find?_eq_some h), by simpa using List.find?_some h⟩

theorem lastWith_eq_none : lastWith key rows k = none ↔ ∀ r ∈ rows, key r ≠ k := by
  simp [lastWith]

theorem lastWith_concat :
    lastWith key (rows ++ [row]) k = if key row = k then some row else lastWith key rows k := by
  by_cases h : key row = k
  · simp [lastWith, h]
  · simp [lastWith, h]

/-- Without shared keys the row of a key is the row with the key. -/
theorem lastWith_of_mem (hkeys : (rows.map key).Nodup) (hr : r ∈ rows) :
    lastWith key rows (key r) = some r := by
  cases h : lastWith key rows (key r) with
  | none => exact absurd rfl (lastWith_eq_none.1 h r hr)
  | some r' =>
      obtain ⟨hr', hkey⟩ := mem_of_lastWith h
      rw [List.inj_on_of_nodup_map hkeys hr' hr hkey]

theorem mem_overwrite (hold : old ∈ rows) (hid : id row = id old) :
    r ∈ overwrite id rows row ↔ r = row ∨ r ∈ rows ∧ id r ≠ id row := by
  unfold overwrite
  constructor
  · intro hr
    obtain ⟨r', hr', rfl⟩ := List.mem_map.1 hr
    split_ifs with h
    · exact .inl rfl
    · exact .inr ⟨hr', h⟩
  · rintro (rfl | ⟨hr, hne⟩)
    · exact List.mem_map.2 ⟨old, hold, if_pos hid.symm⟩
    · exact List.mem_map.2 ⟨r, hr, if_neg hne⟩

theorem map_id_overwrite : (overwrite id rows row).map id = rows.map id := by
  unfold overwrite
  rw [List.map_map]
  refine List.map_congr_left fun r _ => ?_
  simp only [Function.comp]
  split_ifs with h
  · exact h.symm
  · rfl

/-- Writing a row over itself changes nothing. -/
theorem overwrite_self (hids : (rows.map id).Nodup) (hrow : row ∈ rows) :
    overwrite id rows row = rows := by
  unfold overwrite
  refine (List.map_congr_left fun r hr => ?_).trans (List.map_id rows)
  split_ifs with h
  · exact (List.inj_on_of_nodup_map hids hr hrow h).symm
  · rfl

/-- A change to the rows that keeps their keys. -/
theorem lastWith_map {f : R → R} (hf : ∀ r, key (f r) = key r) :
    lastWith key (rows.map f) k = (lastWith key rows k).map f := by
  unfold lastWith
  rw [← List.map_reverse, List.find?_map]
  congr 1
  refine List.find?_congr fun r _ => ?_
  simp only [Function.comp, hf]

/-- Writing over a row under its key does not change which row a key names. -/
theorem lastWith_overwrite (hids : (rows.map id).Nodup) (hold : old ∈ rows)
    (hid : id row = id old) (hkey : key row = key old) :
    lastWith key (overwrite id rows row) k =
      (lastWith key rows k).map fun r => if id r = id row then row else r := by
  unfold lastWith overwrite
  rw [← List.map_reverse, List.find?_map]
  congr 1
  refine List.find?_congr fun r hr => ?_
  simp only [Function.comp]
  split_ifs with h
  · rw [hkey, List.inj_on_of_nodup_map hids (List.mem_reverse.1 hr) hold (h.trans hid)]
  · rfl

namespace Upserted

theorem lastWith_self (h : Upserted key id rows row rows') (hids : (rows.map id).Nodup) :
    lastWith key rows' (key row) = some row := by
  cases h with
  | insert _ _ => rw [lastWith_concat, if_pos rfl]
  | update old hlast hid =>
      obtain ⟨hold, hkey⟩ := mem_of_lastWith hlast
      rw [lastWith_overwrite hids hold hid hkey.symm, hlast, Option.map_some, if_pos hid.symm]

theorem lastWith_of_ne (h : Upserted key id rows row rows') (hids : (rows.map id).Nodup)
    (hk : k ≠ key row) : lastWith key rows' k = lastWith key rows k := by
  cases h with
  | insert _ _ => rw [lastWith_concat, if_neg hk.symm]
  | update old hlast hid =>
      obtain ⟨hold, hkey⟩ := mem_of_lastWith hlast
      rw [lastWith_overwrite hids hold hid hkey.symm]
      cases hother : lastWith key rows k with
      | none => rfl
      | some r =>
          obtain ⟨hr, hrk⟩ := mem_of_lastWith hother
          have hne : id r ≠ id row := by
            intro heq
            rw [List.inj_on_of_nodup_map hids hr hold (heq.trans hid), hkey] at hrk
            exact hk hrk.symm
          rw [Option.map_some, if_neg hne]

theorem mem_iff (h : Upserted key id rows row rows') :
    r ∈ rows' ↔ r = row ∨ r ∈ rows ∧ id r ≠ id row := by
  cases h with
  | insert _ hfresh =>
      rw [List.mem_append, List.mem_singleton, or_comm]
      exact or_congr_right ⟨fun hr => ⟨hr, hfresh r hr⟩, And.left⟩
  | update old hlast hid => exact mem_overwrite (mem_of_lastWith hlast).1 hid

theorem nodup (h : Upserted key id rows row rows') (hids : (rows.map id).Nodup) :
    (rows'.map id).Nodup := by
  cases h with
  | insert _ hfresh =>
      rw [List.map_append, List.map_singleton, List.nodup_append]
      refine ⟨hids, List.nodup_singleton _, ?_⟩
      intro i hi j hj
      obtain ⟨r, hr, rfl⟩ := List.mem_map.1 hi
      rw [List.mem_singleton.1 hj]
      exact hfresh r hr
  | update old _ _ => rwa [map_id_overwrite]

/-- An upsert leaves one row a key. -/
theorem nodup_keys (h : Upserted key id rows row rows') (hids : (rows.map id).Nodup)
    (hkeys : (rows.map key).Nodup) : (rows'.map key).Nodup := by
  cases h with
  | insert hnone _ =>
      rw [List.map_append, List.map_singleton, List.nodup_append]
      refine ⟨hkeys, List.nodup_singleton _, ?_⟩
      intro i hi j hj
      obtain ⟨r, hr, rfl⟩ := List.mem_map.1 hi
      rw [List.mem_singleton.1 hj]
      exact lastWith_eq_none.1 hnone r hr
  | update old hlast hid =>
      obtain ⟨hold, hkey⟩ := mem_of_lastWith hlast
      have hsame : (overwrite id rows row).map key = rows.map key := by
        unfold overwrite
        rw [List.map_map]
        refine List.map_congr_left fun r hr => ?_
        simp only [Function.comp]
        split_ifs with h
        · rw [← hkey, List.inj_on_of_nodup_map hids hr hold (h.trans hid)]
        · rfl
      rwa [hsame]

/-- Rows under another key stay. -/
theorem mem_of_key_ne (h : Upserted key id rows row rows') (hids : (rows.map id).Nodup)
    (hk : key r ≠ key row) : r ∈ rows' ↔ r ∈ rows := by
  rw [h.mem_iff]
  constructor
  · rintro (rfl | ⟨hr, -⟩)
    · exact absurd rfl hk
    · exact hr
  · intro hr
    refine .inr ⟨hr, fun heq => ?_⟩
    cases h with
    | insert _ hfresh => exact hfresh r hr heq
    | update old hlast hid =>
        obtain ⟨hold, hkey⟩ := mem_of_lastWith hlast
        rw [List.inj_on_of_nodup_map hids hr hold (heq.trans hid)] at hk
        exact hk hkey

/-- The row of a key keeps its id. -/
theorem lastWith_id (h : Upserted key id rows row rows') (hids : (rows.map id).Nodup)
    (hlast : lastWith key rows k = some r) :
    (lastWith key rows' k).map id = some (id r) := by
  by_cases hk : k = key row
  · subst hk
    rw [h.lastWith_self hids, Option.map_some]
    cases h with
    | insert hnone _ => exact nomatch hnone.symm.trans hlast
    | update old hold hid => rw [hid, Option.some.inj (hold.symm.trans hlast)]
  · rw [h.lastWith_of_ne hids hk, hlast, Option.map_some]

end Upserted

namespace UpsertedAll

theorem nodup (h : UpsertedAll key id rows written rows') (hids : (rows.map id).Nodup) :
    (rows'.map id).Nodup := by
  induction h with
  | nil _ => exact hids
  | cons hrow _ ih => exact ih (hrow.nodup hids)

theorem nodup_keys (h : UpsertedAll key id rows written rows') (hids : (rows.map id).Nodup)
    (hkeys : (rows.map key).Nodup) : (rows'.map key).Nodup := by
  induction h with
  | nil _ => exact hkeys
  | cons hrow _ ih => exact ih (hrow.nodup hids) (hrow.nodup_keys hids hkeys)

theorem lastWith_of_not_mem (h : UpsertedAll key id rows written rows')
    (hids : (rows.map id).Nodup) (hk : ∀ w ∈ written, key w ≠ k) :
    lastWith key rows' k = lastWith key rows k := by
  induction h with
  | nil _ => rfl
  | cons hrow _ ih =>
      rw [ih (hrow.nodup hids) fun w hw => hk w (List.mem_cons_of_mem _ hw)]
      exact hrow.lastWith_of_ne hids fun heq => hk _ List.mem_cons_self heq.symm

theorem lastWith_id (h : UpsertedAll key id rows written rows') (hids : (rows.map id).Nodup)
    (hlast : lastWith key rows k = some r) : (lastWith key rows' k).map id = some (id r) := by
  induction h generalizing r with
  | nil _ => rw [hlast, Option.map_some]
  | cons hrow _ ih =>
      obtain ⟨r', hr', hid⟩ := Option.map_eq_some_iff.1 (hrow.lastWith_id hids hlast)
      rw [ih (hrow.nodup hids) hr', hid]

/-- With distinct keys, each written row is the row of its key. -/
theorem lastWith_of_mem (h : UpsertedAll key id rows written rows') (hids : (rows.map id).Nodup)
    (hkeys : (written.map key).Nodup) (hr : r ∈ written) : lastWith key rows' (key r) = some r := by
  induction h with
  | nil _ => exact absurd hr List.not_mem_nil
  | @cons rows mid rows' written row hrow hrest ih =>
      rw [List.map_cons, List.nodup_cons] at hkeys
      have hmid := hrow.nodup hids
      rcases List.mem_cons.1 hr with rfl | hr
      · rw [hrest.lastWith_of_not_mem hmid fun w hw heq =>
          hkeys.1 (List.mem_map.2 ⟨w, hw, heq⟩)]
        exact hrow.lastWith_self hids
      · exact ih hmid hkeys.2 hr

/-- A written row has the id of the old row of its key, or a new one. -/
theorem id_of_mem (h : UpsertedAll key id rows written rows') (hids : (rows.map id).Nodup)
    (hkeys : (written.map key).Nodup) (hr : r ∈ written) :
    (∃ old, lastWith key rows (key r) = some old ∧ id r = id old) ∨
      lastWith key rows (key r) = none ∧ ∀ s ∈ rows, id s ≠ id r := by
  induction h with
  | nil _ => exact absurd hr List.not_mem_nil
  | @cons rows mid rows' written row hrow _ ih =>
      rw [List.map_cons, List.nodup_cons] at hkeys
      rcases List.mem_cons.1 hr with rfl | hr
      · cases hrow with
        | insert hnone hfresh => exact .inr ⟨hnone, hfresh⟩
        | update old hlast hid => exact .inl ⟨old, hlast, hid⟩
      · have hne : key r ≠ key row := fun heq => hkeys.1 (List.mem_map.2 ⟨r, hr, heq⟩)
        rw [← hrow.lastWith_of_ne hids hne]
        refine (ih (hrow.nodup hids) hkeys.2 hr).imp_right fun ⟨hnone, hfresh⟩ => ⟨hnone, ?_⟩
        intro s hs
        by_cases hsame : id s = id row
        · exact hsame ▸ hfresh row (hrow.mem_iff.2 (.inl rfl))
        · exact hfresh s (hrow.mem_iff.2 (.inr ⟨hs, hsame⟩))

theorem id_inj (h : UpsertedAll key id rows written rows') (hids : (rows.map id).Nodup)
    (hkeys : (written.map key).Nodup) (hr : r ∈ written) {s : R} (hs : s ∈ written)
    (heq : id r = id s) : r = s :=
  List.inj_on_of_nodup_map (h.nodup hids) (mem_of_lastWith (h.lastWith_of_mem hids hkeys hr)).1
    (mem_of_lastWith (h.lastWith_of_mem hids hkeys hs)).1 heq

/-- The rows of the table are the written ones and those no write went over. -/
theorem mem_iff (h : UpsertedAll key id rows written rows') (hids : (rows.map id).Nodup)
    (hkeys : (written.map key).Nodup) :
    r ∈ rows' ↔ r ∈ written ∨ r ∈ rows ∧ ∀ w ∈ written, id r ≠ id w := by
  induction h with
  | nil _ => simp
  | @cons rows mid rows' written row hrow hrest ih =>
      have hall := UpsertedAll.cons hrow hrest
      have hfirst : ∀ w ∈ written, id row = id w → False := by
        intro w hw heq
        have := hall.id_inj hids hkeys List.mem_cons_self (List.mem_cons_of_mem _ hw) heq
        rw [List.map_cons, List.nodup_cons] at hkeys
        exact hkeys.1 (this ▸ List.mem_map_of_mem hw)
      rw [List.map_cons, List.nodup_cons] at hkeys
      rw [ih (hrow.nodup hids) hkeys.2, hrow.mem_iff, List.mem_cons]
      constructor
      · rintro (hw | ⟨rfl | ⟨hr, hne⟩, hrest⟩)
        · exact .inl (.inr hw)
        · exact .inl (.inl rfl)
        · exact .inr ⟨hr, List.forall_mem_cons.2 ⟨hne, hrest⟩⟩
      · rintro ((rfl | hw) | ⟨hr, hne⟩)
        · exact .inr ⟨.inl rfl, hfirst⟩
        · exact .inl hw
        · obtain ⟨hne, hrest⟩ := List.forall_mem_cons.1 hne
          exact .inr ⟨.inr ⟨hr, hne⟩, hrest⟩

end UpsertedAll

/-! ## Lists related row by row -/

section Forall₂

variable {α β : Type*} {P : α → β → Prop} {as : List α} {bs : List β}

theorem exists_right_of_mem (h : List.Forall₂ P as bs) {a : α} (ha : a ∈ as) : ∃ b ∈ bs, P a b := by
  induction h with
  | nil => exact absurd ha List.not_mem_nil
  | @cons a' b as bs hab _ ih =>
      rcases List.mem_cons.1 ha with rfl | ha
      · exact ⟨b, List.mem_cons_self, hab⟩
      · obtain ⟨b', hb', hP⟩ := ih ha
        exact ⟨b', List.mem_cons_of_mem _ hb', hP⟩

theorem exists_left_of_mem (h : List.Forall₂ P as bs) {b : β} (hb : b ∈ bs) : ∃ a ∈ as, P a b :=
  exists_right_of_mem h.flip hb

end Forall₂

end Lib
