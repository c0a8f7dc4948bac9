import Mathlib.Data.List.Induction
import Mathlib.Data.List.Nodup
import Mathlib.Data.List.Perm.Basic
import Mathlib.Data.List.Sort
import Mathlib.Data.Prod.Lex
import OfficeConnect.Lib.Grouped

/-!
# Sorting and dictionaries by a key

Rows sorted by a key that tells them apart come in one order, whatever order they were in.  A
dictionary is the list of its entries in insertion order: an entry assigned, an entry that is set
once, and rows appended to the bucket of their key.
-/

namespace Lib

variable {α κ β : Type*}

/-! ## Sorting -/

section

variable [LinearOrder κ] (key : α → κ) {rows rows' : List α}

/-- The rows in order of the key; rows of one key keep their order. -/
def sortBy (rows : List α) : List α := rows.insertionSort fun a b => key a ≤ key b

theorem sortBy_perm (rows : List α) : (sortBy key rows).Perm rows := List.perm_insertionSort _ _

theorem sortBy_sorted (rows : List α) : (sortBy key rows).Pairwise fun a b => key a ≤ key b := by
  have : Std.Total fun a b : α => key a ≤ key b := ⟨fun _ _ => le_total _ _⟩
  have : IsTrans α fun a b => key a ≤ key b := ⟨fun _ _ _ => le_trans⟩
  exact List.pairwise_insertionSort _ _

/-- Rows with keys of their own are sorted in one way. -/
theorem sortBy_congr (hkeys : (rows.map key).Nodup) (h : rows'.Perm rows) :
    sortBy key rows' = sortBy key rows := by
  refine List.Perm.eq_of_pairwise (fun a b ha hb hab hba => ?_) (sortBy_sorted key rows')
    (sortBy_sorted key rows) ((sortBy_perm key rows').trans (h.trans (sortBy_perm key rows).symm))
  have hmemA := h.mem_iff.1 ((sortBy_perm key rows').mem_iff.1 ha)
  have hmemB := (sortBy_perm key rows).mem_iff.1 hb
  exact List.inj_on_of_nodup_map hkeys hmemA hmemB (le_antisymm hab hba)

/-- Keys of their own increase along the sorted rows. -/
theorem sortBy_strict (hkeys : (rows.map key).Nodup) :
    ((sortBy key rows).map key).Pairwise (· < ·) := by
  have hnodup := ((sortBy_perm key rows).map key).nodup_iff.2 hkeys
  have hsorted := List.pairwise_map.2 (sortBy_sorted key rows)
  exact (hsorted.and hnodup).imp fun h => lt_of_le_of_ne h.1 h.2

end

/-! ## Assigning an entry -/

section

variable [DecidableEq κ] (key : α → κ) {rows : List α} {a b : α}

/-- `rows[key a] = a`: over the entry of the key, or at the end. -/
def assign (rows : List α) (a : α) : List α :=
  if ∃ b ∈ rows, key b = key a then rows.map fun b => if key b = key a then a else b
  else rows ++ [a]

theorem nodup_assign (h : (rows.map key).Nodup) : ((assign key rows a).map key).Nodup := by
  unfold assign
  split_ifs with hold
  · have hsame : (rows.map fun b => if key b = key a then a else b).map key = rows.map key := by
      rw [List.map_map]
      refine List.map_congr_left fun b _ => ?_
      simp only [Function.comp_apply]
      split_ifs with hb
      · exact hb.symm
      · rfl
    rwa [hsame]
  · rw [List.map_append, List.map_singleton, ← List.concat_eq_append]
    refine List.Nodup.concat (fun hmem => hold ?_) h
    obtain ⟨b, hb, hkey⟩ := List.mem_map.1 hmem
    exact ⟨b, hb, hkey⟩

/-- Where the entry of the key is the same one, the entries are the old ones and it. -/
theorem mem_assign (hsame : ∀ b ∈ rows, key b = key a → b = a) :
    b ∈ assign key rows a ↔ b ∈ rows ∨ b = a := by
  unfold assign
  split_ifs with hold
  · obtain ⟨old, hmem, hkey⟩ := hold
    have hself : (rows.map fun b => if key b = key a then a else b) = rows := by
      refine (List.map_congr_left fun b hb => ?_).trans (List.map_id rows)
      split_ifs with hb'
      · exact (hsame b hb hb').symm
      · rfl
    rw [hself]
    refine ⟨.inl, ?_⟩
    rintro (h | rfl)
    · exact h
    · rwa [← hsame old hmem hkey]
  · rw [List.mem_append, List.mem_singleton]

end

/-! ## Setting an entry once -/

section

variable [BEq κ]

/-- `entries.setdefault(k, v)`. -/
def setDefault (entries : List (κ × β)) (entry : κ × β) : List (κ × β) :=
  if (entries.lookup entry.1).isSome then entries else entries ++ [entry]

theorem lookup_append (xs ys : List (κ × β)) (k : κ) :
    (xs ++ ys).lookup k = (xs.lookup k).or (ys.lookup k) := by
  induction xs with
  | nil => rfl
  | cons x xs ih =>
      obtain ⟨j, v⟩ := x
      rw [List.cons_append, List.lookup_cons, List.lookup_cons]
      cases k == j with
      | true => rfl
      | false => exact ih

/-- The first value of a key stays. -/
theorem lookup_foldl_setDefault [LawfulBEq κ] (pairs entries : List (κ × β)) (k : κ) :
    (pairs.foldl setDefault entries).lookup k = (entries ++ pairs).lookup k := by
  induction pairs generalizing entries with
  | nil => rw [List.foldl_nil, List.append_nil]
  | cons pair pairs ih =>
      obtain ⟨j, v⟩ := pair
      rw [List.foldl_cons, ih, lookup_append, lookup_append, setDefault]
      split_ifs with hset
      · rw [List.lookup_cons]
        cases hk : k == j with
        | false => rfl
        | true =>
            rw [eq_of_beq hk]
            obtain ⟨v', hv'⟩ := Option.isSome_iff_exists.1 hset
            rw [hv']
            rfl
      · rw [lookup_append, Option.or_assoc, ← lookup_append]
        rfl

/-- The first value of a key comes before the others. -/
theorem lookup_of_pairwise [LawfulBEq κ] {R : κ × β → κ × β → Prop}
    {pairs : List (κ × β)} {k : κ} {v : β} (h : pairs.Pairwise R) (hk : pairs.lookup k = some v) :
    (k, v) ∈ pairs ∧ ∀ v', (k, v') ∈ pairs → v' = v ∨ R (k, v) (k, v') := by
  induction pairs with
  | nil => cases hk
  | cons pair pairs ih =>
      obtain ⟨j, w⟩ := pair
      obtain ⟨hhead, htail⟩ := List.pairwise_cons.1 h
      rw [List.lookup_cons] at hk
      cases hkj : k == j with
      | true =>
          obtain rfl := eq_of_beq hkj
          rw [hkj] at hk
          obtain rfl := Option.some.inj hk
          refine ⟨List.mem_cons_self, fun v' hv' => ?_⟩
          rcases List.mem_cons.1 hv' with heq | hmem
          · exact .inl (Prod.mk.inj heq).2
          · exact .inr (hhead _ hmem)
      | false =>
          rw [hkj] at hk
          obtain ⟨hmem, hfirst⟩ := ih htail hk
          refine ⟨List.mem_cons_of_mem _ hmem, fun v' hv' => ?_⟩
          rcases List.mem_cons.1 hv' with heq | hmem'
          · exact absurd (beq_iff_eq.2 (Prod.mk.inj heq).1) (by rw [hkj]; decide)
          · exact hfirst v' hmem'

end

/-! ## Buckets -/

section

variable [DecidableEq κ] (key : α → κ)

/-- `groups.setdefault(key a, []).append(a)`. -/
def addTo : List (κ × List α) → α → List (κ × List α)
  | [], a => [(key a, [a])]
  | (k, group) :: groups, a =>
      if k = key a then (k, group ++ [a]) :: groups else (k, group) :: addTo groups a

/-- The rows under their keys. -/
def buckets (rows : List α) : List (κ × List α) := rows.foldl (addTo key) []

/-- The rows of a key. -/
def bucket (rows : List α) (k : κ) : κ × List α := (k, rows.filter fun a => key a = k)

theorem bucket_concat (rows : List α) (a : α) (k : κ) : bucket key (rows ++ [a]) k =
    (k, (bucket key rows k).2 ++ if key a = k then [a] else []) := by
  simp only [bucket, List.filter_append, Prod.mk.injEq, true_and]
  congr 1
  by_cases h : key a = k
  · simp [h]
  · simp [h]

theorem addTo_map_bucket (rows : List α) (a : α) (order : List κ) (hnodup : order.Nodup) :
    addTo key (order.map (bucket key rows)) a =
      (order.map (bucket key (rows ++ [a]))) ++ if key a ∈ order then [] else [(key a, [a])] := by
  induction order with
  | nil => rfl
  | cons k order ih =>
      have hk : k ∉ order := (List.nodup_cons.1 hnodup).1
      rw [List.map_cons, List.map_cons, bucket_concat, List.cons_append]
      conv_lhs => rw [bucket, addTo]
      by_cases hkey : k = key a
      · subst hkey
        have hrest : order.map (bucket key (rows ++ [a])) = order.map (bucket key rows) := by
          refine List.map_congr_left fun j hj => ?_
          have hne : key a ≠ j := fun h => hk (h ▸ hj)
          rw [bucket_concat, if_neg hne, List.append_nil]
          rfl
        rw [if_pos rfl, if_pos rfl, if_pos List.mem_cons_self, List.append_nil, hrest]
        rfl
      · have hmem : key a ∈ k :: order ↔ key a ∈ order := by
          rw [List.mem_cons]
          exact or_iff_right fun h => hkey h.symm
        rw [if_neg hkey, if_neg (Ne.symm hkey), List.append_nil, ih (List.nodup_cons.1 hnodup).2]
        simp only [hmem, bucket]

/-- A bucket for every key there is, each with all its rows. -/
theorem exists_buckets (rows : List α) : ∃ order : List κ, order.Nodup ∧
    (∀ k, k ∈ order ↔ ∃ a ∈ rows, key a = k) ∧ buckets key rows = order.map (bucket key rows) := by
  induction rows using List.reverseRecOn with
  | nil => exact ⟨[], List.nodup_nil, fun k => by simp, rfl⟩
  | append_singleton rows a ih =>
      obtain ⟨order, hnodup, hcover, hbuckets⟩ := ih
      have hstep : buckets key (rows ++ [a]) = addTo key (buckets key rows) a := by
        rw [buckets, List.foldl_append]
        rfl
      have hcover' : ∀ k, (∃ b ∈ rows ++ [a], key b = k) ↔ k ∈ order ∨ key a = k := fun k => by
        rw [hcover]
        simp [or_and_right, exists_or]
      rw [hstep, hbuckets, addTo_map_bucket key rows a order hnodup]
      by_cases hmem : key a ∈ order
      · refine ⟨order, hnodup, fun k => ?_, by rw [if_pos hmem, List.append_nil]⟩
        rw [hcover']
        refine ⟨.inl, ?_⟩
        rintro (h | rfl)
        · exact h
        · exact hmem
      · refine ⟨order ++ [key a], ?_, fun k => ?_, ?_⟩
        · rw [← List.concat_eq_append]
          exact hnodup.concat hmem
        · rw [hcover', List.mem_append, List.mem_singleton, eq_comm (a := k)]
        · have hnew : bucket key (rows ++ [a]) (key a) = (key a, [a]) := by
            have hnone : (rows.filter fun b => key b = key a) = [] :=
              List.filter_eq_nil_iff.2 fun b hb hkey =>
                hmem ((hcover _).2 ⟨b, hb, by simpa using hkey⟩)
            rw [bucket_concat, if_pos rfl, bucket, hnone]
            rfl
          rw [if_neg hmem, List.map_append, List.map_singleton, hnew]

/-- The buckets together hold the rows. -/
theorem flatMap_bucket_perm {rows : List α} {order : List κ} (hnodup : order.Nodup)
    (hcover : ∀ a ∈ rows, key a ∈ order) :
    (order.flatMap fun k => (bucket key rows k).2).Perm rows := by
  induction order generalizing rows with
  | nil =>
      have hnone : rows = [] := List.eq_nil_iff_forall_not_mem.2 fun a ha =>
        List.not_mem_nil (hcover a ha)
      rw [hnone]
      rfl
  | cons k order ih =>
      obtain ⟨hk, hnodup'⟩ := List.nodup_cons.1 hnodup
      set rest := rows.filter fun a => !decide (key a = k) with hrest
      have hcover' : ∀ a ∈ rest, key a ∈ order := fun a ha => by
        simp only [hrest, List.mem_filter, Bool.not_eq_true', decide_eq_false_iff_not] at ha
        exact (List.mem_cons.1 (hcover a ha.1)).resolve_left ha.2
      have hsame : ∀ j ∈ order, (bucket key rows j).2 = (bucket key rest j).2 := fun j hj => by
        have hne : j ≠ k := fun h => hk (h ▸ hj)
        simp only [bucket, hrest, List.filter_filter]
        refine List.filter_congr fun a _ => ?_
        by_cases hj : key a = j
        · simp [hj, hne]
        · simp [hj]
      rw [List.flatMap_cons, List.flatMap_congr hsame]
      exact ((ih hnodup' hcover').append_left _).trans (List.filter_append_perm _ rows)

end

/-- The buckets in order of their keys. -/
theorem exists_sorted_buckets [LinearOrder κ] (key : α → κ) (rows : List α) : ∃ order : List κ,
    order.Pairwise (· < ·) ∧ (∀ k, k ∈ order ↔ ∃ a ∈ rows, key a = k) ∧
      sortBy Prod.fst (buckets key rows) = order.map (bucket key rows) := by
  obtain ⟨order, hnodup, hcover, hbuckets⟩ := exists_buckets key rows
  refine ⟨sortBy id order, ?_, fun k => ?_, ?_⟩
  · have hstrict : ((sortBy id order).map id).Pairwise (· < ·) :=
      sortBy_strict id (by rwa [List.map_id])
    rwa [List.map_id] at hstrict
  · rw [(sortBy_perm id order).mem_iff, hcover]
  · rw [hbuckets]
    exact (List.map_insertionSort _ _ (bucket key rows) order fun _ _ _ _ => Iff.rfl).symm

end Lib
