import Mathlib.Data.List.MinMax
import Mathlib.Data.List.Perm.Basic
import Mathlib.Data.Prod.Lex

/-!
# The latest row

`List.argmax` keeps the first of the greatest elements.  Where the greatest is alone it does not
matter in which order the list comes, nor what else is in it; where it is not, the order decides.
-/

namespace Lib

variable {α β : Type*} [LinearOrder β] {f : α → β} {l l' : List α} {m : α}

/-- A strictly greatest element is found, wherever it stands. -/
theorem argmax_eq_some_of_lt (hmem : m ∈ l) (hlt : ∀ a ∈ l, a ≠ m → f a < f m) :
    l.argmax f = some m := by
  cases hbest : l.argmax f with
  | none =>
      rw [List.argmax_eq_none.1 hbest] at hmem
      cases hmem
  | some b =>
      by_contra hne
      have hb : b ≠ m := fun heq => hne (heq ▸ rfl)
      exact absurd (hlt b (List.argmax_mem hbest) hb) (List.le_of_mem_argmax hmem hbest).not_gt

/-- The first element is kept where none is greater. -/
theorem argmax_cons_of_le (hle : ∀ a ∈ l, f a ≤ f m) : (m :: l).argmax f = some m := by
  rw [List.argmax_cons]
  cases hbest : l.argmax f with
  | none => rfl
  | some c => exact if_neg (hle c (List.argmax_mem hbest)).not_gt

/-- Elements told apart by `f` may come in any order. -/
theorem argmax_perm (hinj : ∀ a ∈ l, ∀ b ∈ l, f a = f b → a = b) (h : l'.Perm l) :
    l'.argmax f = l.argmax f := by
  cases hbest : l.argmax f with
  | none =>
      obtain rfl := List.argmax_eq_none.1 hbest
      rw [List.perm_nil.1 h]
      rfl
  | some m =>
      have hmem := List.argmax_mem hbest
      refine argmax_eq_some_of_lt (h.mem_iff.2 hmem) fun a ha hne => ?_
      have ha := h.mem_iff.1 ha
      exact lt_of_le_of_ne (List.le_of_mem_argmax ha hbest) fun heq => hne (hinj a ha m hmem heq)

theorem argmax_map {γ : Type*} {g : γ → α} {l : List γ} :
    (l.map g).argmax f = (l.argmax (f ∘ g)).map g := by
  induction l with
  | nil => rfl
  | cons a l ih =>
      rw [List.map_cons, List.argmax_cons, List.argmax_cons, ih]
      cases l.argmax (f ∘ g) with
      | none => rfl
      | some c =>
          by_cases hlt : f (g a) < f (g c)
          · simp [hlt]
          · simp [hlt]

end Lib
