import Mathlib.Logic.Relation
import Mathlib.Tactic

/-!
# Cycles through marked nodes

A graph in which no cycle stays among the unmarked nodes is acyclic exactly when the graph
contracted to its marked nodes is: there an edge is a path whose inner nodes are unmarked.
-/

namespace Lib

open Relation

variable {α : Type*} {r : α → α → Prop} {marked : α → Prop} {a b c : α}

def Acyclic (r : α → α → Prop) : Prop := ∀ a, ¬ TransGen r a a

/-- A rank that falls along every edge. -/
theorem acyclic_of_rank (rank : α → ℕ) (h : ∀ a b, r a b → rank b < rank a) : Acyclic r := by
  have hpath : ∀ a b, TransGen r a b → rank b < rank a := by
    intro a b hab
    induction hab with
    | single hedge => exact h _ _ hedge
    | tail _ hedge ih => exact (h _ _ hedge).trans ih
  exact fun a hcycle => lt_irrefl _ (hpath a a hcycle)

/-- The path from `a` through unmarked nodes first meets the marked node `b`. -/
inductive Through (r : α → α → Prop) (marked : α → Prop) : α → α → Prop where
  | stop {a : α} : marked a → Through r marked a a
  | step {a b c : α} : ¬ marked a → r a b → Through r marked b c → Through r marked a c

/-- An edge of the contracted graph. -/
def Contracted (r : α → α → Prop) (marked : α → Prop) (a b : α) : Prop :=
  marked a ∧ ∃ m, r a m ∧ Through r marked m b

theorem Through.marked_end (h : Through r marked a b) : marked b := by
  induction h with
  | stop hmarked => exact hmarked
  | step _ _ _ ih => exact ih

theorem Through.eq_of_marked (h : Through r marked a b) (ha : marked a) : a = b := by
  cases h with
  | stop _ => rfl
  | step hnot _ _ => exact absurd ha hnot

/-- Two graphs that agree where the path goes. -/
theorem Through.transfer {r' : α → α → Prop} {marked' inside : α → Prop}
    (h : Through r marked a b) (ha : inside a) (hmarked : ∀ x, inside x → (marked x ↔ marked' x))
    (hedge : ∀ x y, inside x → ¬ marked x → r x y → r' x y ∧ inside y) : Through r' marked' a b := by
  induction h with
  | stop hmark => exact .stop ((hmarked _ ha).1 hmark)
  | step hnot hstep _ ih =>
      obtain ⟨hstep', hinside⟩ := hedge _ _ ha hnot hstep
      exact .step (mt (hmarked _ ha).2 hnot) hstep' (ih hinside)

theorem Through.reaches (h : Through r marked a b) : ReflTransGen r a b := by
  induction h with
  | stop _ => exact .refl
  | step _ hedge _ ih => exact .head hedge ih

theorem Contracted.reaches (h : Contracted r marked a b) : TransGen r a b := by
  obtain ⟨-, m, hedge, hthrough⟩ := h
  exact .head' hedge hthrough.reaches

/-- A path to a marked node, read in the contracted graph: from a marked node it is a path there,
from an unmarked one it first runs to a marked node. -/
theorem contracted_of_reaches (h : TransGen r a b) (hb : marked b) :
    (marked a → TransGen (Contracted r marked) a b) ∧
      (¬ marked a → ∃ m, Through r marked a m ∧ ReflTransGen (Contracted r marked) m b) := by
  induction h using TransGen.head_induction_on with
  | @single a hedge =>
      refine ⟨fun ha => .single ⟨ha, b, hedge, .stop hb⟩, fun ha => ?_⟩
      exact ⟨b, .step ha hedge (.stop hb), .refl⟩
  | @head a m hedge _ ih =>
      by_cases hm : marked m
      · have hpath := ih.1 hm
        refine ⟨fun ha => .head ⟨ha, m, hedge, .stop hm⟩ hpath, fun ha => ?_⟩
        exact ⟨m, .step ha hedge (.stop hm), hpath.to_reflTransGen⟩
      · obtain ⟨n, hthrough, hpath⟩ := ih.2 hm
        refine ⟨fun ha => .head' ⟨ha, m, hedge, hthrough⟩ hpath, fun ha => ?_⟩
        exact ⟨n, .step ha hedge hthrough, hpath⟩

/-- A path that meets no marked node stays among the unmarked ones. -/
theorem unmarked_of_reaches (h : TransGen r a b)
    (hnone : ∀ m, ReflTransGen r a m → TransGen r m b → ¬ marked m) (hb : ¬ marked b) :
    TransGen (fun x y => ¬ marked x ∧ ¬ marked y ∧ r x y) a b := by
  induction h using TransGen.head_induction_on with
  | single hedge => exact .single ⟨hnone _ .refl (.single hedge), hb, hedge⟩
  | @head a m hedge hrest ih =>
      have hm : ¬ marked m := hnone m (.single hedge) hrest
      refine .head ⟨hnone a .refl (.head hedge hrest), hm, hedge⟩ (ih fun n hmn hnb => ?_)
      exact hnone n (.head hedge hmn) hnb

/-- Cycles are those of the contracted graph. -/
theorem acyclic_iff_contracted
    (hout : Acyclic fun x y => ¬ marked x ∧ ¬ marked y ∧ r x y) :
    Acyclic r ↔ Acyclic (Contracted r marked) := by
  constructor
  · intro h a hcycle
    exact h a (TransGen.closed (fun _ _ hedge => hedge.reaches) a a hcycle)
  · intro h a hcycle
    by_cases hmeets : ∃ m, marked m ∧ TransGen r m m
    · obtain ⟨m, hm, hloop⟩ := hmeets
      exact h m ((contracted_of_reaches hloop hm).1 hm)
    · push Not at hmeets
      refine hout a (unmarked_of_reaches hcycle (fun m ham hma hm => ?_) fun ha => hmeets a ha hcycle)
      exact hmeets m hm (hma.trans_left ham)

end Lib
