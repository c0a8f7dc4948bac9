import OfficeConnect.Lib.Guard

/-!
# Computations that return

`Returns x`: the computation does not raise.  Like `Raises`, it goes through the pieces a computation
is built from; over a list, the computation returns when it returns for every item, with one value an
item.
-/

namespace Lib

universe u v w

variable {ε : Type u} {α β : Type v}

def Returns (x : Except ε α) : Prop := ∃ a, x = .ok a

@[simp] theorem returns_ok (a : α) : Returns (.ok a : Except ε α) := ⟨a, rfl⟩

@[simp] theorem returns_pure (a : α) : Returns (pure a : Except ε α) := ⟨a, rfl⟩

@[simp] theorem not_returns_error {e : ε} : ¬ Returns (.error e : Except ε α) := nofun

@[simp] theorem returns_bind {x : Except ε α} {f : α → Except ε β} :
    Returns (x >>= f) ↔ ∃ a, x = .ok a ∧ Returns (f a) := by
  cases x with
  | error e => simp
  | ok a => simp

@[simp] theorem returns_map {x : Except ε α} {f : α → β} : Returns (f <$> x) ↔ Returns x := by
  cases x with
  | error e => simp [Functor.map, Except.map]
  | ok a => simp [Functor.map, Except.map]

@[simp] theorem returns_mapError {ε' : Type u} {x : Except ε α} {f : ε → ε'} :
    Returns (x.mapError f) ↔ Returns x := by
  cases x with
  | error e => simp [Except.mapError]
  | ok a => simp [Except.mapError]

/-- Whether the rest returns does not depend on the value it is given. -/
theorem returns_bind_iff {x : Except ε α} {f : α → Except ε β} {p : Prop}
    (h : ∀ a, Returns (f a) ↔ p) : Returns (x >>= f) ↔ Returns x ∧ p := by
  simp only [returns_bind, h, exists_and_right]
  rfl

@[simp] theorem returns_ite {c : Prop} [Decidable c] {x y : Except ε α} :
    Returns (if c then x else y) ↔ (c → Returns x) ∧ (¬ c → Returns y) := by
  split_ifs with h <;> simp [h]

/-! ## Over a list -/

section

variable {α : Type v} {β : Type w}

/-- One value for every item, or an item without one. -/
theorem exists_forall₂ {R : α → β → Prop} {as : List α} :
    (∃ bs, List.Forall₂ R as bs) ↔ ∀ a ∈ as, ∃ b, R a b := by
  induction as with
  | nil => simp
  | cons a as ih => simp [List.forall₂_cons_left_iff, ← ih]

theorem forM_eq_ok {f : α → Except ε Unit} {as : List α} :
    forM as f = .ok () ↔ ∀ a ∈ as, f a = .ok () := by
  induction as with
  | nil => simp
  | cons a as ih => simp [ih, Unique.exists_iff]

theorem mapM_eq_ok {f : α → Except ε β} {as : List α} {bs : List β} :
    as.mapM f = .ok bs ↔ List.Forall₂ (fun a b => f a = .ok b) as bs := by
  induction as generalizing bs with
  | nil =>
      rw [List.mapM_nil, pure_eq_ok, List.forall₂_nil_left_iff]
      exact eq_comm
  | cons a as ih =>
      rw [List.mapM_cons, List.forall₂_cons_left_iff]
      simp only [bind_eq_ok, pure_eq_ok, ih, eq_comm (b := bs)]
      tauto

/-- The values are those the items give. -/
theorem mem_of_forall₂ {f : α → Except ε β} {as : List α} {bs : List β}
    (h : List.Forall₂ (fun a b => f a = .ok b) as bs) {b : β} : b ∈ bs ↔ ∃ a ∈ as, f a = .ok b := by
  induction h with
  | nil => simp
  | cons h _ ih => simp [ih, h, eq_comm]

/-- A list is worked through raising nothing but what an item raises. -/
theorem raises_mapM {P : ε → Prop} {f : α → Except ε β} {as : List α} (h : ∀ a, Raises P (f a)) :
    Raises P (as.mapM f) := by
  induction as with
  | nil => simp
  | cons a as ih => simp [List.mapM_cons, h, ih]

theorem returns_mapM {f : α → Except ε β} {as : List α} :
    Returns (as.mapM f) ↔ ∀ a ∈ as, Returns (f a) := by
  simp only [Returns, mapM_eq_ok, exists_forall₂]

end

end Lib
