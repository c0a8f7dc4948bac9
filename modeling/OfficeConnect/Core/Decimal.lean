import OfficeConnect.Ingest.Values
import OfficeConnect.Lib.Guard

/-!
# Decimal numbers

Python's `Decimal` in its default context: 28 digits, exponents up to 999999, halves to the even.
A number is read from text exactly.  An addition rounds its exact result and raises where the context
traps; comparing with a NaN raises too, an equality only with a signaling one.
-/

namespace OfficeConnect

open Ingest Lib

/-- What an operation on values raises. -/
inductive Fault where
  | invalidOperation | overflow | valueError | typeError | overflowError
deriving DecidableEq, Repr

inductive Decimal where
  | finite (negative : Bool) (coefficient : ℕ) (exponent : ℤ)
  | infinite (negative : Bool)
  | nan (signaling : Bool)
deriving DecidableEq, Repr

namespace Decimal

def zero : Decimal := finite false 0 0

def IsNaN : Decimal → Prop
  | nan _ => True
  | _ => False

instance (d : Decimal) : Decidable d.IsNaN :=
  match d with
  | finite _ _ _ => isFalse id
  | infinite _ => isFalse id
  | nan _ => isTrue trivial

@[simp] theorem isNaN_finite {n : Bool} {c : ℕ} {e : ℤ} : ¬ (finite n c e).IsNaN := id

@[simp] theorem isNaN_infinite {n : Bool} : ¬ (infinite n).IsNaN := id

@[simp] theorem isNaN_nan {s : Bool} : (nan s).IsNaN := trivial

/-- How many digits a coefficient has; zero has one. -/
def digitCount (n : ℕ) : ℕ := (toString n).length

/-! ## Reading -/

/-- The digits of every script as ASCII ones, and the letters in lower case. -/
def plain (c : Char) : Char :=
  match digit? c with
  | some d => Char.ofNat (48 + d)
  | none => c.toLower

def readDigits (cs : List Char) : ℕ := cs.foldl (fun acc c => 10 * acc + (c.toNat - 48)) 0

def exponent? : List Char → Option ℤ
  | [] => some 0
  | 'e' :: cs =>
      let (negative, cs) := match cs with
        | '-' :: cs => (true, cs)
        | '+' :: cs => (false, cs)
        | cs => (false, cs)
      if cs ≠ [] ∧ cs.all Char.isDigit then
        some (if negative then -(readDigits cs : ℤ) else readDigits cs)
      else none
  | _ => none

/-- The widest context, in which a text is read. -/
def Representable (coefficient : ℕ) (exponent : ℤ) : Prop :=
  exponent + digitCount coefficient - 1 ≤ 999999999999999999 ∧ -1999999999999999997 ≤ exponent

instance (coefficient : ℕ) (exponent : ℤ) : Decidable (Representable coefficient exponent) :=
  inferInstanceAs (Decidable (_ ∧ _))

def number? (negative : Bool) (cs : List Char) : Option Decimal := do
  let (whole, rest) := cs.span Char.isDigit
  let (fraction, rest) := match rest with
    | '.' :: rest => rest.span Char.isDigit
    | rest => ([], rest)
  let e ← exponent? rest
  let coefficient := readDigits (whole ++ fraction)
  let exponent := e - fraction.length
  if whole ++ fraction ≠ [] ∧ Representable coefficient exponent then
    some (finite negative coefficient exponent)
  else none

/-- `Decimal(text)`, or nothing where it raises; underscores are skipped wherever they stand. -/
def parse? (s : String) : Option Decimal :=
  let cs := ((stripBy isSpace s.toList).filter (· ≠ '_')).map plain
  let (negative, cs) := match cs with
    | '-' :: cs => (true, cs)
    | '+' :: cs => (false, cs)
    | cs => (false, cs)
  match cs with
  | ['i', 'n', 'f'] | ['i', 'n', 'f', 'i', 'n', 'i', 't', 'y'] => some (infinite negative)
  | 'n' :: 'a' :: 'n' :: payload => if payload.all Char.isDigit then some (nan false) else none
  | 's' :: 'n' :: 'a' :: 'n' :: payload => if payload.all Char.isDigit then some (nan true) else none
  | cs => number? negative cs

example : parse? " -12.50 " = some (finite true 1250 (-2)) ∧ parse? "1e+3" = some (finite false 1 3) ∧
    parse? "sNaN1" = some (nan true) ∧ parse? "1.2.3" = none := by decide +kernel

/-- What `bool` takes for false. -/
def isZero : Decimal → Bool
  | finite _ c _ => c = 0
  | _ => false

/-! ## Comparing -/

/-- The coefficient with its sign, in units of `10 ^ unit`. -/
def scaled (negative : Bool) (coefficient : ℕ) (exponent unit : ℤ) : ℤ :=
  (if negative then -(coefficient : ℤ) else coefficient) * 10 ^ (exponent - unit).toNat

/-- The order of two numbers; a NaN has no place in it. -/
def order : Decimal → Decimal → Option Ordering
  | nan _, _ | _, nan _ => none
  | infinite n, infinite m => some (compare m n)
  | infinite n, finite _ _ _ => some (if n then .lt else .gt)
  | finite _ _ _, infinite m => some (if m then .gt else .lt)
  | finite n c e, finite n' c' e' =>
      some (compare (scaled n c e (min e e')) (scaled n' c' e' (min e e')))

def gt (a b : Decimal) : Except Fault Bool := do
  let o ← found (order a b) .invalidOperation
  return o = .gt

def le (a b : Decimal) : Except Fault Bool := do
  let o ← found (order a b) .invalidOperation
  return o ≠ .gt

def eq (a b : Decimal) : Except Fault Bool := do
  refuse (a = nan true ∨ b = nan true) .invalidOperation
  return order a b = some .eq

theorem order_eq_none {a b : Decimal} : order a b = none ↔ a.IsNaN ∨ b.IsNaN := by
  cases a <;> cases b <;> simp [order, IsNaN]

theorem gt_eq_ok {a b : Decimal} {r : Bool} :
    gt a b = .ok r ↔ ¬ a.IsNaN ∧ ¬ b.IsNaN ∧ decide (order a b = some .gt) = r := by
  rw [gt, ← and_assoc, ← not_or, ← order_eq_none]
  cases h : order a b <;> simp

theorem le_eq_ok {a b : Decimal} {r : Bool} :
    le a b = .ok r ↔ ¬ a.IsNaN ∧ ¬ b.IsNaN ∧ decide (order a b ≠ some .gt) = r := by
  rw [le, ← and_assoc, ← not_or, ← order_eq_none]
  cases h : order a b <;> simp

theorem eq_eq_ok {a b : Decimal} {r : Bool} :
    eq a b = .ok r ↔ a ≠ nan true ∧ b ≠ nan true ∧ decide (order a b = some .eq) = r := by
  simp only [eq, bind_eq_ok, refuse_eq_ok, not_or, pure_eq_ok, exists_const, and_assoc]

/-! ## Adding -/

/-- The quotient rounded to the nearest, halves to the even. -/
def divHalfEven (n d : ℕ) : ℕ :=
  let q := n / d
  let r := n % d
  if d < 2 * r ∨ 2 * r = d ∧ q % 2 = 1 then q + 1 else q

/-- An exact result in the context: at most 28 digits, no exponent below -1000026; trapped above
999999. -/
def finish (negative : Bool) (coefficient : ℕ) (exponent : ℤ) : Except Fault Decimal :=
  if coefficient = 0 then .ok (finite negative 0 (max (-1000026) (min exponent 999999)))
  else
    let target := max exponent (max (exponent + digitCount coefficient - 28) (-1000026))
    let rounded := divHalfEven coefficient (10 ^ (target - exponent).toNat)
    let (coefficient, exponent) :=
      if digitCount rounded = 29 then (rounded / 10, target + 1) else (rounded, target)
    if 999999 < exponent + digitCount coefficient - 1 then .error .overflow
    else .ok (finite negative coefficient exponent)

def add : Decimal → Decimal → Except Fault Decimal
  | nan s, nan s' => if s ∨ s' then .error .invalidOperation else .ok (nan false)
  | nan s, _ | _, nan s => if s then .error .invalidOperation else .ok (nan false)
  | infinite n, infinite m => if n = m then .ok (infinite n) else .error .invalidOperation
  | infinite n, finite _ _ _ | finite _ _ _, infinite n => .ok (infinite n)
  | finite n c e, finite n' c' e' =>
      let sum := scaled n c e (min e e') + scaled n' c' e' (min e e')
      finish (sum < 0 ∨ sum = 0 ∧ n ∧ n') sum.natAbs (min e e')

def neg : Decimal → Decimal
  | finite n c e => finite (!n) c e
  | infinite n => infinite (!n)
  | nan s => nan s

def abs : Decimal → Decimal
  | finite _ c e => finite false c e
  | infinite _ => infinite false
  | nan s => nan s

/-- `sum(parts, Decimal("0"))`. -/
def total : List Decimal → Decimal → Except Fault Decimal
  | [], acc => .ok acc
  | d :: ds, acc => do
      let acc ← add acc d
      total ds acc

@[simp] theorem isNaN_neg {d : Decimal} : d.neg.IsNaN ↔ d.IsNaN := by cases d <;> rfl

@[simp] theorem isNaN_abs {d : Decimal} : d.abs.IsNaN ↔ d.IsNaN := by cases d <;> rfl

theorem not_isNaN_finish {negative : Bool} {coefficient : ℕ} {exponent : ℤ} {d : Decimal}
    (h : finish negative coefficient exponent = .ok d) : ¬ d.IsNaN := by
  unfold finish at h
  dsimp only at h
  split_ifs at h <;> cases h <;> exact id

/-- A sum that is computed is a NaN where one of its terms is. -/
theorem isNaN_add {a b c : Decimal} (h : add a b = .ok c) : c.IsNaN ↔ a.IsNaN ∨ b.IsNaN := by
  cases a with
  | finite n x e =>
      cases b with
      | finite n' x' e' => simpa using not_isNaN_finish h
      | infinite n' => cases h; simp
      | nan s => cases s <;> cases h; simp
  | infinite n =>
      cases b with
      | finite n' x' e' => cases h; simp
      | infinite n' =>
          rw [add] at h
          split_ifs at h
          cases h
          simp
      | nan s => cases s <;> cases h; simp
  | nan s =>
      cases b with
      | nan s' =>
          rw [add] at h
          split_ifs at h
          cases h
          simp
      | _ => cases s <;> cases h; simp

theorem isNaN_total {ds : List Decimal} {acc sum : Decimal} (h : total ds acc = .ok sum) :
    sum.IsNaN ↔ acc.IsNaN ∨ ∃ d ∈ ds, d.IsNaN := by
  induction ds generalizing acc with
  | nil =>
      cases h
      simp
  | cons d ds ih =>
      simp only [total, bind_eq_ok] at h
      obtain ⟨acc', hadd, h⟩ := h
      rw [ih h, isNaN_add hadd, or_assoc]
      simp

example : add (finite false 5 (-1)) (finite false (10 ^ 27) 0) =
    .ok (finite false (10 ^ 27) 0) ∧
    add (finite false 15 (-1)) (finite false (10 ^ 27) 0) =
      .ok (finite false (10 ^ 27 + 2) 0) := by decide +kernel

end Decimal

end OfficeConnect
