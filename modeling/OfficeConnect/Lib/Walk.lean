import Mathlib.Tactic

/-!
# Bounded walks

A walk of at most `n` steps along a relation, read from its start.  Read from its end it is a walk
of at most `n` steps along the relation turned around, so a search up and a search down with one
bound meet in the same pairs, cycles or not.
-/

namespace Lib

variable {α : Type*} {r : α → α → Prop} {a b : α} {n : ℕ}

/-- A walk of at most `n` steps leads from `a` to `b`. -/
def Within (r : α → α → Prop) : ℕ → α → α → Prop
  | 0, a, b => a = b
  | n + 1, a, b => a = b ∨ ∃ m, r a m ∧ Within r n m b

theorem within_succ_right : Within r (n + 1) a b ↔ a = b ∨ ∃ m, Within r n a m ∧ r m b := by
  induction n generalizing a with
  | zero => simp [Within]
  | succ n ih =>
      rw [Within]
      simp only [ih]
      constructor
      · rintro (rfl | ⟨m, ham, rfl | ⟨k, hmk, hkb⟩⟩)
        · exact .inl rfl
        · exact .inr ⟨a, .inl rfl, ham⟩
        · exact .inr ⟨k, .inr ⟨m, ham, hmk⟩, hkb⟩
      · rintro (rfl | ⟨k, rfl | ⟨m, ham, hmk⟩, hkb⟩)
        · exact .inl rfl
        · exact .inr ⟨b, hkb, .inl rfl⟩
        · exact .inr ⟨m, ham, .inr ⟨k, hmk, hkb⟩⟩

/-- A walk is a walk from the other end. -/
theorem within_swap : Within (fun x y => r y x) n a b ↔ Within r n b a := by
  induction n generalizing a b with
  | zero => simp only [Within, eq_comm]
  | succ n ih =>
      rw [within_succ_right]
      simp only [ih, Within, eq_comm (a := a), and_comm]

end Lib
