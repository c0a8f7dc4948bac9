import Mathlib.Data.List.Basic
import Mathlib.Logic.Function.Basic

/-!
# A journal of transactions

A journal is written beside a run: what each open transaction has done, kept at its commit and struck
out at its rollback.  Where the state can be read as a journal and every step reads as one entry, the
end of a run reads as the journal written along it.
-/

namespace Lib

variable {α σ μ : Type*}

@[ext] structure Journal (α : Type*) where
  opened : ℕ → List α := fun _ => []
  kept : List α := []

namespace Journal

inductive Entry (α : Type*) where
  | nothing
  | does (t : ℕ) (as : List α)
  | keeps (t : ℕ)
  | drops (t : ℕ)

def enter (j : Journal α) : Entry α → Journal α
  | .nothing => j
  | .does t as => { j with opened := Function.update j.opened t (j.opened t ++ as) }
  | .keeps t => { opened := Function.update j.opened t [], kept := j.kept ++ j.opened t }
  | .drops t => { j with opened := Function.update j.opened t [] }

/-- The journal written along a run, `entry` being what a step enters in it. -/
def along (step : σ → μ → σ) (entry : σ → μ → Entry α) : σ → Journal α → List μ → Journal α
  | _, j, [] => j
  | s, j, m :: ms => along step entry (step s m) (j.enter (entry s m)) ms

variable {step : σ → μ → σ} {entry : σ → μ → Entry α}

/-- The end of a run reads as the journal written along it. -/
theorem read_foldl {read : σ → Journal α}
    (hread : ∀ s m, read (step s m) = (read s).enter (entry s m)) (ms : List μ) (s : σ) :
    read (ms.foldl step s) = along step entry s (read s) ms := by
  induction ms generalizing s with
  | nil => rfl
  | cons m ms ih =>
      rw [List.foldl_cons, along, ← hread]
      exact ih (step s m)

end Journal

end Lib
