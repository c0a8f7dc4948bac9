import Mathlib.Data.Rat.Floor
import OfficeConnect.Lib.Guard

/-!
# Conventions shared by every service

What a service raises, the clock, the calendar date behind it, and money.  Instants are seconds
since 1970-01-01 UTC and dates are days since 1970-01-01, both unbounded; stored money is a whole
number of centavos (`numeric(12, 2)`), and a `Decimal` a caller hands in is a rational.
-/

namespace OfficeConnect

/-- What a service raises. -/
inductive Raised where
  | api (statusCode : ℕ) (code message : String)
  | valueError (message : String)
  | typeError
  | keyError
  | attributeError
  | noResultFound
  | multipleResultsFound
  | runtimeError (message : String)
  | emailError (message : String)
  | sessionCapReached (message : String)
  | integrityError (index : String)
  | dataError
  | invalidOperation
  | overflowError
deriving DecidableEq, Repr

/-- Refused for who the actor is: a 403, or the segregation of duties. -/
def Raised.Forbids : Raised → Prop
  | .api statusCode code _ => statusCode = 403 ∨ code = "segregation_of_duties"
  | _ => False

instance (e : Raised) : Decidable e.Forbids :=
  match e with
  | .api statusCode code _ =>
      inferInstanceAs (Decidable (statusCode = 403 ∨ code = "segregation_of_duties"))
  | .valueError _ | .typeError | .keyError | .attributeError | .noResultFound
  | .multipleResultsFound | .runtimeError _ | .emailError _ | .sessionCapReached _
  | .integrityError _ | .dataError | .invalidOperation | .overflowError =>
      inferInstanceAs (Decidable False)

@[simp] theorem Raised.forbids_api {statusCode : ℕ} {code message : String} :
    (Raised.api statusCode code message).Forbids ↔
      statusCode = 403 ∨ code = "segregation_of_duties" := Iff.rfl

@[simp] theorem Raised.not_forbids_valueError (message : String) :
    ¬ (Raised.valueError message).Forbids := id

@[simp] theorem Raised.not_forbids_attributeError : ¬ Raised.attributeError.Forbids := id

@[simp] theorem Raised.not_forbids_integrityError (index : String) :
    ¬ (Raised.integrityError index).Forbids := id

@[simp] theorem Raised.not_forbids_dataError : ¬ Raised.dataError.Forbids := id

@[simp] theorem Raised.not_forbids_invalidOperation : ¬ Raised.invalidOperation.Forbids := id

@[simp] theorem Raised.not_forbids_overflowError : ¬ Raised.overflowError.Forbids := id

/-- The computation refuses nobody for who they are. -/
abbrev SparesAll {α : Type} (x : Except Raised α) : Prop := Lib.Raises (fun e => ¬ e.Forbids) x

/-! ## Truthiness -/

/-- `not x` for an optional text: missing or empty. -/
def blank (x : Option String) : Prop := x = none ∨ x = some ""

instance (x : Option String) : Decidable (blank x) :=
  inferInstanceAs (Decidable (x = none ∨ x = some ""))

/-- `a or b` on optional texts: an empty text counts as missing. -/
def orText (a b : Option String) : Option String := if blank a then b else a

/-- `a or b` on optional row ids: the id `0` counts as missing. -/
def orId (a b : Option ℕ) : Option ℕ := if a = none ∨ a = some 0 then b else a

theorem orText_of_not_blank {a b : Option String} (h : ¬ blank a) : orText a b = a := if_neg h

/-! ## Time -/

abbrev Time := ℤ

abbrev Day := ℤ

def hour : Time := 3600

def manilaOffset : Time := 8 * hour

/-- The Manila calendar date of an instant (`to_manila(now).date()`). -/
def manilaDate (t : Time) : Day := (t + manilaOffset) / 86400

/-- The instant at which the Manila clock shows `h` o'clock on `d`. -/
def manilaInstant (d : Day) (h : ℤ) : Time := d * 86400 + h * hour - manilaOffset

/-- Year, month and day of a date in the proleptic Gregorian calendar. -/
def civil (d : Day) : ℤ × ℤ × ℤ :=
  let z := d + 719468
  let era := z / 146097
  let doe := z - era * 146097
  let yoe := (doe - doe / 1460 + doe / 36524 - doe / 146096) / 365
  let doy := doe - (365 * yoe + yoe / 4 - yoe / 100)
  let mp := (5 * doy + 2) / 153
  let m := if mp < 10 then mp + 3 else mp - 9
  (yoe + era * 400 + if m ≤ 2 then 1 else 0, m, doy - (153 * mp + 2) / 5 + 1)

def year (d : Day) : ℤ := (civil d).1

/-- The decimal of `n`, zeros after the sign up to `width` characters (`format(n, "04d")`). -/
def padded (width : ℕ) (n : ℤ) : String :=
  let digits := toString n.natAbs
  let sign := if n < 0 then "-" else ""
  sign ++ "".pushn '0' (width - sign.length - digits.length) ++ digits

def isoDate (d : Day) : String :=
  let (y, m, day) := civil d
  padded 4 y ++ "-" ++ padded 2 m ++ "-" ++ padded 2 day

example : isoDate 20454 = "2026-01-01" := by decide +kernel

/-! ## Money -/

/-- Quantize to the centavo, halves away from zero (`ROUND_HALF_UP`). -/
def toMoney (q : ℚ) : ℤ :=
  if 0 ≤ q then ⌊q * 100 + 1 / 2⌋ else -⌊-q * 100 + 1 / 2⌋

/-- What a `numeric(12, 2)` column holds. -/
def Storable (centavos : ℤ) : Prop := |centavos| < 10 ^ 12

instance (centavos : ℤ) : Decidable (Storable centavos) := inferInstanceAs (Decidable (_ < _))

def moneyStr (centavos : ℤ) : String :=
  (if centavos < 0 then "-" else "") ++ toString (centavos.natAbs / 100) ++ "." ++
    padded 2 (centavos.natAbs % 100)

example : toMoney (1.005 : ℚ) = 101 ∧ moneyStr 123450 = "1234.50" := by decide +kernel

end OfficeConnect
