import OfficeConnect.Core.Calendar
import OfficeConnect.Core.Decimal

/-!
# JSON values

What `json.loads` returns and what the checklist engine reads of it: equality, truthiness, numbers
and dates.
-/

namespace OfficeConnect

open Ingest Lib

/-- A float: its exact value and the decimal its `repr` shows, or what a literal out of range reads
as. -/
inductive FloatLiteral where
  | finite (value : ℚ) (digits exponent : ℤ)
  | infinite (negative : Bool)
deriving DecidableEq, Repr

/-- A whole number that `str` prints; `json.loads` reads no longer one. -/
abbrev Printable := {n : ℤ // n.natAbs < 10 ^ maxStrDigits}

theorem printable_zero : (0 : ℤ).natAbs < 10 ^ maxStrDigits := by decide +kernel

/-- An object lists its keys in order. -/
inductive Json where
  | null
  | bool (b : Bool)
  | int (n : Printable)
  | float (f : FloatLiteral)
  | str (s : String)
  | list (items : List Json)
  | obj (fields : List (String × Json))

namespace Json

/-! ## Equality -/

/-- The number a value counts as in a comparison, or the sign of an infinity. -/
def number? : Json → Option (ℚ ⊕ Bool)
  | bool b => some (.inl b.toNat)
  | int n => some (.inl n.1)
  | float (.finite value _ _) => some (.inl value)
  | float (.infinite negative) => some (.inr negative)
  | _ => none

mutual

/-- `a == b`. -/
def pyEq : Json → Json → Bool
  | null, null => true
  | str a, str b => a = b
  | list as, list bs => pyEqList as bs
  | obj as, obj bs => as.length = bs.length && pyEqFields as bs
  | a, b =>
      match number? a, number? b with
      | some x, some y => x = y
      | _, _ => false

def pyEqList : List Json → List Json → Bool
  | [], [] => true
  | a :: as, b :: bs => pyEq a b && pyEqList as bs
  | _, _ => false

def pyEqFields : List (String × Json) → List (String × Json) → Bool
  | [], _ => true
  | (key, a) :: as, bs =>
      (match bs.lookup key with
        | some b => pyEq a b
        | none => false) && pyEqFields as bs

end

mutual

/-- No object lists a key twice. -/
def Proper : Json → Prop
  | list items => ProperList items
  | obj fields => (fields.map Prod.fst).Nodup ∧ ProperFields fields
  | _ => True

def ProperList : List Json → Prop
  | [] => True
  | item :: items => item.Proper ∧ ProperList items

def ProperFields : List (String × Json) → Prop
  | [] => True
  | (_, value) :: fields => value.Proper ∧ ProperFields fields

end

theorem properList_iff {items : List Json} : ProperList items ↔ ∀ item ∈ items, item.Proper := by
  induction items with
  | nil => simp [ProperList]
  | cons item items ih => simp [ProperList, ih]

/-! ## Conversions -/

/-- `bool(value)`. -/
def truthy : Json → Bool
  | null => false
  | bool b => b
  | int n => n.1 ≠ 0
  | float (.finite value _ _) => value ≠ 0
  | float (.infinite _) => true
  | str s => s ≠ ""
  | list items => ¬ items.isEmpty
  | obj fields => ¬ fields.isEmpty

/-- `int(value)`. -/
def toInt : Json → Except Fault ℤ
  | null => .error .typeError
  | bool b => .ok b.toNat
  | int n => .ok n.1
  | float (.finite value _ _) => .ok (if 0 ≤ value then ⌊value⌋ else -⌊-value⌋)
  | float (.infinite _) => .error .overflowError
  | str s => (parseInt s).mapError fun _ => .valueError
  | list _ => .error .typeError
  | obj _ => .error .typeError

/-- `Decimal(str(value))` of a number or a text; a truth value is no number here. -/
def asDecimal : Json → Option Decimal
  | int n => some (.finite (n.1 < 0) n.1.natAbs 0)
  | float (.finite _ digits exponent) => some (.finite (digits < 0) digits.natAbs exponent)
  | float (.infinite negative) => some (.infinite negative)
  | str s => Decimal.parse? s
  | _ => none

/-! ## Dates -/

def asciiDigits? (width : ℕ) (cs : List Char) : Option (ℤ × List Char) :=
  let digits := cs.take width
  if digits.length = width ∧ digits.all Char.isDigit then
    some (Decimal.readDigits digits, cs.drop width)
  else none

/-- A year, month and day that the calendar has. -/
def dateOf? (y m d : ℤ) : Option Day :=
  if 1 ≤ y ∧ y ≤ 9999 ∧ civil (dayOfCivil y m d) = (y, m, d) then some (dayOfCivil y m d) else none

/-- Monday is zero. -/
def weekday (day : Day) : ℤ := (day + 3) % 7

/-- The Monday of the week that has the year's first Thursday. -/
def isoWeek1Monday (y : ℤ) : Day :=
  let first := dayOfCivil y 1 1
  let monday := first - weekday first
  if 3 < weekday first then monday + 7 else monday

def isoWeekDate? (y week d : ℤ) : Option Day := do
  let first := weekday (dayOfCivil y 1 1)
  let leap := dayOfCivil (y + 1) 1 1 - dayOfCivil y 1 1 = 366
  let long := first = 3 ∨ first = 2 ∧ leap
  if 1 ≤ y ∧ 1 ≤ week ∧ (week ≤ 52 ∨ week = 53 ∧ long) ∧ 1 ≤ d ∧ d ≤ 7 then
    let (y', m', d') := civil (isoWeek1Monday y + (week - 1) * 7 + d - 1)
    dateOf? y' m' d'
  else none

/-- `date.fromisoformat(text)`, or nothing where it raises; what follows the day is not read. -/
def isoDate? (text : String) : Option Day := do
  if text.utf8ByteSize ≠ 7 ∧ text.utf8ByteSize ≠ 8 ∧ text.utf8ByteSize ≠ 10 then none
  let (y, rest) ← asciiDigits? 4 text.toList
  let (separated, rest) := match rest with
    | '-' :: rest => (true, rest)
    | rest => (false, rest)
  let afterSeparator : List Char → Option (List Char) := fun cs =>
    if separated then
      match cs with
      | '-' :: cs => some cs
      | _ => none
    else some cs
  match rest with
  | 'W' :: rest => do
      let (week, rest) ← asciiDigits? 2 rest
      if rest = [] then isoWeekDate? y week 1
      else
        let (d, _) ← asciiDigits? 1 (← afterSeparator rest)
        isoWeekDate? y week d
  | rest => do
      let (m, rest) ← asciiDigits? 2 rest
      let (d, _) ← asciiDigits? 2 (← afterSeparator rest)
      dateOf? y m d

/-- A date, or the date a text begins with. -/
def asDate : Json → Option Day
  | str s => isoDate? (String.ofList (s.toList.take 10))
  | _ => none

example : asDate (str "2026-01-01T08:00:00") = some 20454 ∧ asDate (str "2026-W01-4") = some 20454 ∧
    asDate (str "2026-02-30") = none := by decide +kernel

end Json

end OfficeConnect
