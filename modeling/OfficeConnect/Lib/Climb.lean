import Mathlib.Data.Fintype.Card
import Mathlib.Data.Set.Finite.List
import OfficeConnect.Lib.Contract

/-!
# Climbing a relation

How far one can climb along a relation, step after step.  From a node on a cycle there is no end to
it, so a bound on the height finds every cycle; and without cycles every finite set of nodes has one
from which no step stays in the set.
-/

namespace Lib

open Relation

variable {α : Type*} {r : α → α → Prop} {a b : α} {n : ℕ}

/-- From `a` one can climb `n` steps. -/
def Climbs (r : α → α → Prop) : ℕ → α → Prop
  | 0, _ => True
  | n + 1, a => ∃ b, r a b ∧ Climbs r n b

/-- A cycle can be climbed for ever. -/
theorem climbs_of_cycle (h : TransGen r a a) (n : ℕ) : Climbs r n a := by
  induction n generalizing a with
  | zero => trivial
  | succ n ih =>
      obtain ⟨b, hedge, hpath⟩ := TransGen.head'_iff.1 h
      exact ⟨b, hedge, ih (.tail' hpath hedge)⟩

theorem climbs_iff_chain :
    Climbs r n a ↔ ∃ chain : List α, chain.length = n ∧ (a :: chain).IsChain r := by
  induction n generalizing a with
  | zero => simp [Climbs]
  | succ n ih =>
      simp only [Climbs, ih]
      constructor
      · rintro ⟨b, hedge, chain, hlength, hchain⟩
        exact ⟨b :: chain, by rw [List.length_cons, hlength], .cons_cons hedge hchain⟩
      · rintro ⟨chain, hlength, hchain⟩
        cases chain with
        | nil => cases hlength
        | cons b chain =>
            obtain ⟨hedge, hchain⟩ := List.isChain_cons_cons.1 hchain
            exact ⟨b, hedge, chain, Nat.succ.inj hlength, hchain⟩

/-- Without cycles a chain never meets a node twice. -/
theorem Acyclic.nodup_of_chain {l : List α} (h : Acyclic r) (hchain : l.IsChain r) : l.Nodup := by
  have hpairs : l.Pairwise (TransGen r) := (hchain.imp fun _ _ => TransGen.single).pairwise
  refine hpairs.imp ?_
  rintro a _ hpath rfl
  exact h a hpath

/-- Without cycles, some node of a list has no step into the list. -/
theorem Acyclic.exists_top {l : List α} (h : Acyclic r) (hne : l ≠ []) :
    ∃ a ∈ l, ∀ b ∈ l, ¬ r a b := by
  let above (x y : {a // a ∈ l}) : Prop := TransGen r y.1 x.1
  have : Finite {a // a ∈ l} := (List.finite_toSet l).to_subtype
  have : IsTrans {a // a ∈ l} above := ⟨fun _ _ _ hab hbc => hbc.trans hab⟩
  have : Std.Irrefl above := ⟨fun x => h x.1⟩
  have hwf : WellFounded above := Finite.wellFounded_of_trans_of_irrefl above
  obtain ⟨first, hfirst⟩ := List.exists_mem_of_ne_nil l hne
  obtain ⟨top, -, htop⟩ := hwf.has_min Set.univ ⟨⟨first, hfirst⟩, trivial⟩
  exact ⟨top.1, top.2, fun b hb hedge => htop ⟨b, hb⟩ trivial (.single hedge)⟩

end Lib
