import Mathlib.Tactic

/-!
# Computations that raise

Straight-line code that raises is an `Except` computation built from a few pieces: `refuse`, which
raises when a condition holds, `found` and `absent`, which raise when a lookup misses and when it
hits, and `bind`.  The lemmas below turn "this computation returned" into the conjunction of the
facts that let it return.
-/

namespace Lib

universe u v

variable {ε : Type u} {α β : Type v}

/-- Raise `e` when `bad` holds. -/
def refuse (bad : Prop) [Decidable bad] (e : ε) : Except ε Unit :=
  if bad then .error e else .ok ()

/-- The value of a lookup, or `e`. -/
def found (o : Option α) (e : ε) : Except ε α :=
  match o with
  | some a => .ok a
  | none => .error e

/-- Raise on the row a lookup finds. -/
def absent (o : Option α) (e : α → ε) : Except ε Unit :=
  match o with
  | some a => .error (e a)
  | none => .ok ()

@[simp] theorem bind_eq_ok {x : Except ε α} {f : α → Except ε β} {b : β} :
    (x >>= f) = .ok b ↔ ∃ a, x = .ok a ∧ f a = .ok b := by
  cases x with
  | error e => simp [bind, Except.bind]
  | ok a => simp [bind, Except.bind]

@[simp] theorem pure_eq_ok {a b : α} : (pure a : Except ε α) = .ok b ↔ a = b := by
  simp [pure, Except.pure]

@[simp] theorem map_eq_ok {x : Except ε α} {f : α → β} {b : β} :
    f <$> x = .ok b ↔ ∃ a, x = .ok a ∧ f a = b := by
  cases x with
  | error e => simp [Functor.map, Except.map]
  | ok a => simp [Functor.map, Except.map]

@[simp] theorem refuse_eq_ok {bad : Prop} [Decidable bad] {e : ε} {u : Unit} :
    refuse bad e = .ok u ↔ ¬ bad := by
  unfold refuse
  split_ifs with h <;> simp [h]

@[simp] theorem found_eq_ok {o : Option α} {e : ε} {a : α} :
    found o e = .ok a ↔ o = some a := by
  cases o <;> simp [found]

@[simp] theorem absent_eq_ok {o : Option α} {e : α → ε} {u : Unit} :
    absent o e = .ok u ↔ o = none := by
  cases o <;> simp [absent]

@[simp] theorem ok_bind (a : α) (f : α → Except ε β) : ((Except.ok a) >>= f) = f a := rfl

@[simp] theorem error_bind (e : ε) (f : α → Except ε β) :
    ((Except.error e) >>= f) = .error e := rfl

/-- A computation that returns a value passing a test, found by running it. -/
theorem exists_eq_ok {x : Except ε α} (p : α → Bool) (h : x.toOption.any p = true) :
    ∃ a, x = .ok a ∧ p a = true := by
  cases x with
  | error e => cases h
  | ok a => exact ⟨a, rfl, h⟩

/-- A lookup that finds a row passing a test, found by running it. -/
theorem exists_eq_some {o : Option α} (p : α → Bool) (h : o.any p = true) :
    ∃ a, o = some a ∧ p a = true := (Option.any_eq_true p o).1 h

theorem refuse_of_not {bad : Prop} [Decidable bad] (e : ε) (h : ¬ bad) :
    refuse bad e = .ok () := if_neg h

theorem refuse_of {bad : Prop} [Decidable bad] (e : ε) (h : bad) :
    refuse bad e = .error e := if_pos h

@[simp] theorem found_some (a : α) (e : ε) : found (some a) e = .ok a := rfl

@[simp] theorem found_none (e : ε) : found (none : Option α) e = .error e := rfl

/-! ## What a computation raises -/

section

variable {P : ε → Prop}

/-- Whatever the computation raises satisfies `P`. -/
def Raises (P : ε → Prop) (x : Except ε α) : Prop := ∀ e, x = .error e → P e

@[simp] theorem raises_ok (a : α) : Raises P (.ok a : Except ε α) := by
  rintro e ⟨⟩

@[simp] theorem raises_pure (a : α) : Raises P (pure a : Except ε α) := raises_ok a

@[simp] theorem raises_error {e : ε} : Raises P (.error e : Except ε α) ↔ P e := by
  simp [Raises]

@[simp] theorem raises_bind {x : Except ε α} {f : α → Except ε β} :
    Raises P (x >>= f) ↔ Raises P x ∧ ∀ a, x = .ok a → Raises P (f a) := by
  cases x with
  | error e => simp [Raises]
  | ok a => simp

@[simp] theorem raises_map {x : Except ε α} {f : α → β} : Raises P (f <$> x) ↔ Raises P x := by
  cases x with
  | error e => simp [Functor.map, Except.map]
  | ok a => simp [Functor.map, Except.map]

@[simp] theorem raises_ite {c : Prop} [Decidable c] {x y : Except ε α} :
    Raises P (if c then x else y) ↔ (c → Raises P x) ∧ (¬ c → Raises P y) := by
  split_ifs with h <;> simp [h]

@[simp] theorem raises_refuse {bad : Prop} [Decidable bad] {e : ε} :
    Raises P (refuse bad e) ↔ (bad → P e) := by
  unfold refuse
  split_ifs with h <;> simp [h]

@[simp] theorem raises_found {o : Option α} {e : ε} :
    Raises P (found o e) ↔ (o = none → P e) := by
  cases o <;> simp

@[simp] theorem raises_absent {o : Option α} {e : α → ε} :
    Raises P (absent o e) ↔ ∀ a, o = some a → P (e a) := by
  cases o <;> simp [absent]

end

end Lib
