import Mathlib.Algebra.BigOperators.Group.List.Basic
import Mathlib.Algebra.GroupWithZero.Nat
import Mathlib.Algebra.Order.BigOperators.Group.List
import Mathlib.Algebra.Order.Group.Nat
import Mathlib.Data.List.Nodup
import Mathlib.Data.List.Perm.Basic

/-!
# Sums by group

Rows are grouped by a key.  The keys come in some order, each once, and every row has one of them;
then the sums of the groups add up to the sum over the rows.
-/

namespace Lib

variable {α κ M : Type*} [DecidableEq κ] [AddCommMonoid M] {f : α → κ} {rows : List α}
variable {order : List κ}

theorem sum_filter_add_sum_filter_not (p : α → Bool) (w : α → M) (rows : List α) :
    ((rows.filter p).map w).sum + ((rows.filter fun a => !p a).map w).sum = (rows.map w).sum := by
  rw [← List.sum_append, ← List.map_append]
  exact ((List.filter_append_perm p rows).map w).sum_eq

/-- The groups' sums add up to the sum of the rows. -/
theorem sum_groups (w : α → M) (hnodup : order.Nodup) (hcover : ∀ a ∈ rows, f a ∈ order) :
    (order.map fun s => ((rows.filter fun a => f a = s).map w).sum).sum = (rows.map w).sum := by
  induction order generalizing rows with
  | nil =>
      have hnone : rows = [] := List.eq_nil_iff_forall_not_mem.2 fun a ha =>
        List.not_mem_nil (hcover a ha)
      rw [hnone]
      rfl
  | cons s order ih =>
      obtain ⟨hs, horder⟩ := List.nodup_cons.1 hnodup
      have hrest := @ih (rows.filter fun a => !decide (f a = s)) horder fun a ha => by
        obtain ⟨hmem, hother⟩ := List.mem_filter.1 ha
        exact (List.mem_cons.1 (hcover a hmem)).resolve_left (by simpa using hother)
      rw [List.map_cons, List.sum_cons, ← sum_filter_add_sum_filter_not (fun a => f a = s) w rows,
        ← hrest]
      congr 2
      refine List.map_congr_left fun t ht => ?_
      have hne : t ≠ s := fun h => hs (h ▸ ht)
      rw [List.filter_filter]
      congr 2
      refine List.filter_congr fun a _ => ?_
      by_cases hat : f a = t
      · simp [hat, hne]
      · simp [hat]

/-- The groups of the keys with a property add up to the rows whose key has it. -/
theorem sum_groups_filter (p : κ → Bool) (w : α → M) (hnodup : order.Nodup)
    (hcover : ∀ a ∈ rows, f a ∈ order) :
    ((order.filter p).map fun s => ((rows.filter fun a => f a = s).map w).sum).sum =
      ((rows.filter fun a => p (f a)).map w).sum := by
  rw [← sum_groups (f := f) w (hnodup.filter p) fun a ha => by
    obtain ⟨hmem, hp⟩ := List.mem_filter.1 ha
    exact List.mem_filter.2 ⟨hcover a hmem, hp⟩]
  refine congrArg List.sum (List.map_congr_left fun s hs => ?_)
  rw [List.filter_filter]
  congr 2
  refine List.filter_congr fun a _ => ?_
  by_cases has : f a = s
  · simp [has, (List.mem_filter.1 hs).2]
  · simp [has]

/-- The same for the number of rows. -/
theorem sum_lengths_filter (p : κ → Bool) (hnodup : order.Nodup)
    (hcover : ∀ a ∈ rows, f a ∈ order) :
    ((order.filter p).map fun s => (rows.filter fun a => f a = s).length).sum =
      (rows.filter fun a => p (f a)).length := by
  have hsum := sum_groups_filter (f := f) (M := ℕ) p (fun _ => 1) hnodup hcover
  simpa using hsum

section

variable (g : α → List κ) (k : κ)

/-- Rows that hold an element are at most its occurrences. -/
theorem countP_le_sum_count (rows : List α) :
    rows.countP (fun a => k ∈ g a) ≤ (rows.map fun a => (g a).count k).sum := by
  induction rows with
  | nil => rfl
  | cons a rows ih =>
      rw [List.countP_cons, List.map_cons, List.sum_cons]
      by_cases hmem : k ∈ g a
      · have hone := List.one_le_count_iff.2 hmem
        simp only [hmem, decide_true, if_true]
        omega
      · simp only [hmem, decide_false, Bool.false_eq_true, if_false]
        omega

/-- They are as many exactly when no row repeats it. -/
theorem sum_count_eq_iff (rows : List α) :
    (rows.map fun a => (g a).count k).sum = rows.countP (fun a => k ∈ g a) ↔
      ∀ a ∈ rows, (g a).count k ≤ 1 := by
  induction rows with
  | nil => simp
  | cons a rows ih =>
      have hle := countP_le_sum_count g k rows
      rw [List.forall_mem_cons, ← ih, List.countP_cons, List.map_cons, List.sum_cons]
      by_cases hmem : k ∈ g a
      · have hone := List.one_le_count_iff.2 hmem
        simp only [hmem, decide_true, if_true]
        omega
      · have hzero := List.count_eq_zero_of_not_mem hmem
        simp only [hmem, decide_false, Bool.false_eq_true, if_false]
        omega

end

/-- Two members of a list are no more than its sum. -/
theorem add_le_sum_map (w : κ → ℕ) {s t : κ} (hs : s ∈ order) (ht : t ∈ order) (hne : t ≠ s) :
    w s + w t ≤ (order.map w).sum := by
  rw [← List.sum_map_erase w hs]
  have hrest := List.mem_map_of_mem (f := w) ((List.mem_erase_of_ne hne).2 ht)
  exact Nat.add_le_add_left (List.le_sum_of_mem hrest) _

end Lib
