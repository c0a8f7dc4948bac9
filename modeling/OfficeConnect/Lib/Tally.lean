import Mathlib.Data.List.Nodup
import Mathlib.Data.List.Perm.Subperm
import Mathlib.Tactic.Ring

/-!
# Counting along the integers

`tally p a b` is the number of integers in `(a, b]` that satisfy `p`, and minus their number in
`(b, a]` when `b` comes first.  It is the only function of `b` that vanishes at `a` and steps up at
the integers that satisfy `p`, which makes it additive in its end points.  A loop that steps forward
or back over the integers counts a tally too.
-/

namespace Lib

variable {p q : ℤ → Prop} [DecidablePred p] [DecidablePred q] {a b c n : ℤ}

/-- How many of the `n` integers that follow `a` satisfy `p`. -/
def countAfter (p : ℤ → Prop) [DecidablePred p] (a : ℤ) (n : ℕ) : ℕ :=
  (List.range n).countP fun i : ℕ => p (a + 1 + (i : ℤ))

@[simp] theorem countAfter_zero (a : ℤ) : countAfter p a 0 = 0 := rfl

theorem countAfter_succ (a : ℤ) (n : ℕ) :
    countAfter p a (n + 1) = countAfter p a n + if p (a + 1 + n) then 1 else 0 := by
  simp only [countAfter, List.range_succ, List.countP_append, List.countP_singleton,
    decide_eq_true_eq]

theorem countAfter_succ' (a : ℤ) (n : ℕ) :
    countAfter p a (n + 1) = countAfter p (a + 1) n + if p (a + 1) then 1 else 0 := by
  have hshift : ∀ i : ℕ, a + 1 + ((i + 1 : ℕ) : ℤ) = a + 1 + 1 + i := by
    intro i
    push_cast
    ring
  simp only [countAfter, List.range_succ_eq_map, List.countP_cons, List.countP_map,
    Function.comp_def, Nat.succ_eq_add_one, hshift, Nat.cast_zero, add_zero, decide_eq_true_eq]

/-- The signed count of the integers in `(a, b]` that satisfy `p`. -/
def tally (p : ℤ → Prop) [DecidablePred p] (a b : ℤ) : ℤ :=
  countAfter p a (b - a).toNat - countAfter p b (a - b).toNat

theorem tally_of_le (hle : a ≤ b) : tally p a b = countAfter p a (b - a).toNat := by
  rw [tally, show (a - b).toNat = 0 by omega, countAfter_zero]
  simp

theorem tally_of_ge (hle : b ≤ a) : tally p a b = -countAfter p b (a - b).toNat := by
  rw [tally, show (b - a).toNat = 0 by omega, countAfter_zero]
  simp

theorem tally_self (a : ℤ) : tally p a a = 0 := by
  rw [tally, sub_self]

theorem tally_succ (a b : ℤ) : tally p a (b + 1) = tally p a b + if p (b + 1) then 1 else 0 := by
  by_cases hle : a ≤ b
  · have hspan : (b + 1 - a).toNat = (b - a).toNat + 1 := by omega
    have hlast : a + 1 + ((b - a).toNat : ℤ) = b + 1 := by omega
    rw [tally_of_le hle, tally_of_le (by omega), hspan, countAfter_succ, hlast]
    push_cast
    rfl
  · have hspan : (a - b).toNat = (a - (b + 1)).toNat + 1 := by omega
    rw [tally_of_ge (b := b) (by omega), tally_of_ge (b := b + 1) (by omega), hspan,
      countAfter_succ']
    push_cast
    ring

/-- A function that steps up at the integers that satisfy `p` measures the tally. -/
theorem tally_eq_sub {f : ℤ → ℤ} (hf : ∀ d, f (d + 1) = f d + if p (d + 1) then 1 else 0)
    (a b : ℤ) : tally p a b = f b - f a := by
  induction b using Int.inductionOn' (b := a) with
  | zero => rw [tally_self, sub_self]
  | succ d _ ih =>
      rw [tally_succ, hf, ih]
      ring
  | pred d _ ih =>
      have hstep := hf (d - 1)
      have htally := tally_succ (p := p) a (d - 1)
      rw [sub_add_cancel] at hstep htally
      omega

theorem tally_add (p : ℤ → Prop) [DecidablePred p] (a b c : ℤ) :
    tally p a b + tally p b c = tally p a c := by
  rw [tally_eq_sub (tally_succ a) b c]
  ring

theorem tally_comm (p : ℤ → Prop) [DecidablePred p] (a b : ℤ) : tally p b a = -tally p a b := by
  have hround := tally_add p a b a
  rw [tally_self] at hround
  omega

theorem tally_nonneg (hle : a ≤ b) : 0 ≤ tally p a b := by
  rw [tally_of_le hle]
  exact Int.natCast_nonneg _

theorem tally_le_tally (hle : b ≤ c) : tally p a b ≤ tally p a c := by
  rw [← tally_add p a b c]
  have hrest := tally_nonneg (p := p) hle
  omega

theorem tally_congr (h : ∀ d, a < d → d ≤ b → (p d ↔ q d)) (hle : a ≤ b) :
    tally p a b = tally q a b := by
  rw [tally_of_le hle, tally_of_le hle, countAfter, countAfter]
  congr 1
  refine List.countP_congr fun i hi => ?_
  have hlt := List.mem_range.1 hi
  simpa using h (a + 1 + i) (by omega) (by omega)

/-- What satisfies `p` also satisfies `q` or does not. -/
theorem tally_split (p q : ℤ → Prop) [DecidablePred p] [DecidablePred q] (a b : ℤ) :
    tally p a b = tally (fun d => p d ∧ q d) a b + tally (fun d => p d ∧ ¬ q d) a b := by
  have hstep := tally_eq_sub (p := p)
    (f := fun b => tally (fun d => p d ∧ q d) a b + tally (fun d => p d ∧ ¬ q d) a b)
    (fun d => by
      simp only [tally_succ]
      by_cases hp : p (d + 1) <;> by_cases hq : q (d + 1) <;> simp [hp, hq] <;> ring) a b
  simpa [tally_self] using hstep

/-- What satisfies `p` is counted once, so that a list of it all is as long. -/
theorem tally_le_length {l : List ℤ} (h : ∀ d, p d → d ∈ l) (hle : a ≤ b) :
    tally p a b ≤ l.length := by
  have hnodup : (((List.range (b - a).toNat).filter fun i : ℕ => p (a + 1 + (i : ℤ))).map
      fun i : ℕ => a + 1 + (i : ℤ)).Nodup := by
    refine List.Nodup.map (fun i j hij => ?_) (List.nodup_range.filter _)
    have hsame : a + 1 + (i : ℤ) = a + 1 + (j : ℤ) := hij
    omega
  have hsub : ((List.range (b - a).toNat).filter fun i : ℕ => p (a + 1 + (i : ℤ))).map
      (fun i : ℕ => a + 1 + (i : ℤ)) ⊆ l := by
    intro d hd
    obtain ⟨i, hi, rfl⟩ := List.mem_map.1 hd
    exact h _ (of_decide_eq_true (List.mem_filter.1 hi).2)
  have hlength := (List.subperm_of_subset hnodup hsub).length_le
  rw [List.length_map, ← List.countP_eq_length_filter] at hlength
  rw [tally_of_le hle]
  exact_mod_cast hlength

/-- The integers up to the one at which the tally reaches `n` are those with a tally below `n`. -/
theorem lt_iff_tally_lt {y z : ℤ} (hy : p y) (hn : tally p a y = n) :
    z < y ↔ tally p a z < n := by
  constructor
  · intro hlt
    have hmono := tally_le_tally (p := p) (a := a) (show z ≤ y - 1 by omega)
    have hlast := tally_succ (p := p) a (y - 1)
    rw [sub_add_cancel, if_pos hy] at hlast
    omega
  · intro hlt
    by_contra hle
    have hmono := tally_le_tally (p := p) (a := a) (not_lt.1 hle)
    omega

/-! ## Counting in steps -/

/-- How many of the first `n` integers that follow `a` in steps of `step` satisfy `p`. -/
def countAlong (p : ℤ → Prop) [DecidablePred p] (step : ℤ) : ℤ → ℕ → ℕ
  | _, 0 => 0
  | a, n + 1 => countAlong p step (a + step) n + if p (a + step) then 1 else 0

theorem countAlong_one (a : ℤ) (n : ℕ) : (countAlong p 1 a n : ℤ) = tally p a (a + n) := by
  induction n generalizing a with
  | zero => simp [countAlong, tally_self]
  | succ n ih =>
      have hlast : a + ((n + 1 : ℕ) : ℤ) = a + 1 + n := by push_cast; ring
      rw [countAlong, hlast, ← tally_add p a (a + 1), tally_succ a a, tally_self]
      push_cast
      rw [ih]
      ring

/-- Counting back leaves out the integer it starts at. -/
theorem countAlong_neg_one (a : ℤ) (n : ℕ) :
    (countAlong p (-1) a n : ℤ) = tally p (a - n - 1) (a - 1) := by
  induction n generalizing a with
  | zero => simp [countAlong, tally_self]
  | succ n ih =>
      have hfirst : a - ((n + 1 : ℕ) : ℤ) - 1 = a + -1 - n - 1 := by push_cast; ring
      have hlast := tally_succ (p := p) (a + -1 - n - 1) (a + -1 - 1)
      rw [sub_add_cancel, ← sub_eq_add_neg] at hlast
      rw [countAlong, hfirst, ← sub_eq_add_neg, hlast]
      push_cast
      rw [ih]

end Lib
