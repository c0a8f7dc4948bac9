import Mathlib.Data.List.Count
import Mathlib.Logic.Relation

/-!
# Searching a graph

A search pops a node off a stack, skips it if it was seen, and else marks it as seen and pushes its
successors.  What it has seen in the end is what can be reached.  An edge is pushed only when its
source is marked, so the search along a finite list of edges ends, whatever cycles and parallel
edges it has.
-/

namespace Lib

open Relation

variable {α ε : Type*}

/-! ## The search -/

section

variable {out : α → List α} {seen frontier result : List α} {node a b : α}

/-- The search from a set of seen nodes and a stack, its top first, ends with `result` seen. -/
inductive Searches (out : α → List α) : List α → List α → List α → Prop
  | done (seen : List α) : Searches out seen [] seen
  | skip {seen frontier result : List α} {node : α} (hseen : node ∈ seen)
      (hrest : Searches out seen frontier result) : Searches out seen (node :: frontier) result
  | mark {seen frontier result : List α} {node : α} (hnew : node ∉ seen)
      (hrest : Searches out (node :: seen) ((out node).reverse ++ frontier) result) :
      Searches out seen (node :: frontier) result

/-- What was seen stays seen, and what was on the stack is seen. -/
theorem Searches.mem_result (h : Searches out seen frontier result)
    (ha : a ∈ seen ∨ a ∈ frontier) : a ∈ result := by
  induction h with
  | done seen => exact ha.resolve_right (by simp)
  | skip hseen _ ih =>
      refine ih (ha.elim .inl fun hmem => ?_)
      rcases List.mem_cons.1 hmem with rfl | hmem
      · exact .inl hseen
      · exact .inr hmem
  | mark _ _ ih =>
      refine ih (ha.elim (fun hmem => .inl (List.mem_cons_of_mem _ hmem)) fun hmem => ?_)
      rcases List.mem_cons.1 hmem with rfl | hmem
      · exact .inl List.mem_cons_self
      · exact .inr (List.mem_append_right _ hmem)

/-- The search invents nothing. -/
theorem Searches.reached (h : Searches out seen frontier result) (hb : b ∈ result) :
    b ∈ seen ∨ ∃ a ∈ frontier, ReflTransGen (fun a b => b ∈ out a) a b := by
  induction h with
  | done seen => exact .inl hb
  | skip _ _ ih =>
      refine (ih hb).imp_right ?_
      rintro ⟨a, ha, hpath⟩
      exact ⟨a, List.mem_cons_of_mem _ ha, hpath⟩
  | mark _ _ ih =>
      rcases ih hb with hmem | ⟨a, ha, hpath⟩
      · rcases List.mem_cons.1 hmem with rfl | hmem
        · exact .inr ⟨b, List.mem_cons_self, .refl⟩
        · exact .inl hmem
      · rcases List.mem_append.1 ha with hout | ha
        · exact .inr ⟨_, List.mem_cons_self, .head (List.mem_reverse.1 hout) hpath⟩
        · exact .inr ⟨a, List.mem_cons_of_mem _ ha, hpath⟩

/-- The successors of the seen nodes were seen, or wait on the stack. -/
def Covered (out : α → List α) (seen frontier : List α) : Prop :=
  ∀ a ∈ seen, ∀ b ∈ out a, b ∈ seen ∨ b ∈ frontier

theorem Covered.skip (h : Covered out seen (node :: frontier)) (hseen : node ∈ seen) :
    Covered out seen frontier := by
  intro a ha b hb
  refine (h a ha b hb).elim .inl fun hmem => ?_
  rcases List.mem_cons.1 hmem with rfl | hmem
  · exact .inl hseen
  · exact .inr hmem

theorem Covered.mark (h : Covered out seen (node :: frontier)) :
    Covered out (node :: seen) ((out node).reverse ++ frontier) := by
  intro a ha b hb
  rcases List.mem_cons.1 ha with rfl | ha
  · exact .inr (List.mem_append_left _ (List.mem_reverse.2 hb))
  · refine (h a ha b hb).elim (fun hmem => .inl (List.mem_cons_of_mem _ hmem)) fun hmem => ?_
    rcases List.mem_cons.1 hmem with rfl | hmem
    · exact .inl List.mem_cons_self
    · exact .inr (List.mem_append_right _ hmem)

/-- With an empty stack the seen nodes have all their successors among them. -/
theorem Searches.closed (h : Searches out seen frontier result) (hcov : Covered out seen frontier)
    (ha : a ∈ result) (hb : b ∈ out a) : b ∈ result := by
  induction h with
  | done seen => exact (hcov a ha b hb).resolve_right (by simp)
  | skip hseen _ ih => exact ih (hcov.skip hseen) ha
  | mark _ _ ih => exact ih hcov.mark ha

/-- The search from one node sees what can be reached from it. -/
theorem Searches.mem_iff {start : α} (h : Searches out [] [start] result) :
    b ∈ result ↔ ReflTransGen (fun a b => b ∈ out a) start b := by
  constructor
  · intro hb
    obtain ⟨a, ha, hpath⟩ := (h.reached hb).resolve_left (by simp)
    rwa [List.mem_singleton.1 ha] at hpath
  · intro hpath
    induction hpath with
    | refl => exact h.mem_result (.inr List.mem_cons_self)
    | tail _ hedge ih => exact h.closed (fun _ hmem => by simp at hmem) ih hedge

end

/-! ## The edges still to be pushed -/

section

variable [DecidableEq α] (source target : ε → α) (edges : List ε)

/-- The targets of the edges out of a node, in the order of the edges. -/
def successors (a : α) : List α := (edges.filter fun e => source e = a).map target

variable {source target edges} in
theorem mem_successors {a b : α} : b ∈ successors source target edges a ↔
    ∃ e ∈ edges, source e = a ∧ target e = b := by
  simp [successors, and_assoc]

/-- How many edges leave a node that was not seen. -/
def unpushed (seen : List α) : ℕ := edges.countP fun e => source e ∉ seen

/-- Marking a node pushes the edges that leave it, once. -/
theorem unpushed_cons {seen : List α} {node : α} (hnew : node ∉ seen) :
    unpushed source edges (node :: seen) + (successors source target edges node).length =
      unpushed source edges seen := by
  rw [successors, List.length_map, ← List.countP_eq_length_filter]
  unfold unpushed
  induction edges with
  | nil => rfl
  | cons e edges ih =>
      rw [List.countP_cons, List.countP_cons, List.countP_cons]
      by_cases hnode : source e = node
      · rw [if_neg (by simp [hnode]), if_pos (by simp [hnode]), if_pos (by simp [hnode, hnew])]
        omega
      · have hsame : source e ∉ node :: seen ↔ source e ∉ seen := by simp [hnode]
        rw [if_neg (by simp [hnode] : ¬ decide (source e = node) = true)]
        simp only [hsame]
        omega

end

end Lib
