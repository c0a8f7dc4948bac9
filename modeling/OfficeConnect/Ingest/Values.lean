import Mathlib.Tactic

/-!
# The values of a feed

A parsed feed is rows of strings, numbers, booleans and nulls.  What the ingest makes of one: its
trimmed text, a whole number or a truth value, with the conversions that raise.
-/

namespace OfficeConnect.Ingest

/-! ## Numbers and text as the language reads them -/

/-- The value of a float; only its whole part is read. -/
inductive FloatValue where
  | finite (whole : ℤ)
  | nan
  | infinite
deriving DecidableEq, Repr

/-- A value of a feed; a float comes with its `str`. -/
inductive Value where
  | null
  | str (s : String)
  | int (n : ℤ)
  | float (text : String) (value : FloatValue)
  | bool (b : Bool)
deriving DecidableEq, Repr

/-- What a conversion raises. -/
inductive ConversionError where
  | valueError | overflowError
deriving DecidableEq, Repr

/-- `str.isspace` on one character. -/
def isSpace (c : Char) : Bool :=
  let n := c.toNat
  (0x9 ≤ n ∧ n ≤ 0xd) ∨ (0x1c ≤ n ∧ n ≤ 0x20) ∨ n = 0x85 ∨ n = 0xa0 ∨ n = 0x1680 ∨
    (0x2000 ≤ n ∧ n ≤ 0x200a) ∨ n = 0x2028 ∨ n = 0x2029 ∨ n = 0x202f ∨ n = 0x205f ∨ n = 0x3000

def stripBy (p : Char → Bool) (cs : List Char) : List Char :=
  ((cs.dropWhile p).reverse.dropWhile p).reverse

/-- `str.strip`. -/
def strip (s : String) : String := String.ofList (stripBy isSpace s.toList)

/-- The zeros of the decimal digits of Unicode; the nine others follow each. -/
def digitZeros : List ℕ :=
  [0x30, 0x660, 0x6f0, 0x7c0, 0x966, 0x9e6, 0xa66, 0xae6, 0xb66, 0xbe6, 0xc66, 0xce6, 0xd66, 0xde6,
    0xe50, 0xed0, 0xf20, 0x1040, 0x1090, 0x17e0, 0x1810, 0x1946, 0x19d0, 0x1a80, 0x1a90, 0x1b50,
    0x1bb0, 0x1c40, 0x1c50, 0xa620, 0xa8d0, 0xa900, 0xa9d0, 0xa9f0, 0xaa50, 0xabf0, 0xff10, 0x104a0,
    0x10d30, 0x11066, 0x110f0, 0x11136, 0x111d0, 0x112f0, 0x11450, 0x114d0, 0x11650, 0x116c0,
    0x11730, 0x118e0, 0x11950, 0x11c50, 0x11d50, 0x11da0, 0x11f50, 0x16a60, 0x16ac0, 0x16b50,
    0x1d7ce, 0x1d7d8, 0x1d7e2, 0x1d7ec, 0x1d7f6, 0x1e140, 0x1e2f0, 0x1e4f0, 0x1e950, 0x1fbf0]

def digit? (c : Char) : Option ℕ :=
  (digitZeros.find? fun z => z ≤ c.toNat ∧ c.toNat < z + 10).map (c.toNat - ·)

/-- The limit on the digits of a conversion between whole numbers and text. -/
def maxStrDigits : ℕ := 4300

/-- Digits with single underscores between them. -/
def digits? : List Char → Option (List ℕ)
  | [] => none
  | [c] => (digit? c).map ([·])
  | c :: '_' :: cs => do
      let d ← digit? c
      let ds ← digits? cs
      return d :: ds
  | c :: cs => do
      let d ← digit? c
      let ds ← digits? cs
      return d :: ds

/-- `int(s)` of a text; of the ASCII separators only the blanks and line ends are trimmed. -/
def parseInt (s : String) : Except ConversionError ℤ :=
  let cs := stripBy (fun c => isSpace c ∧ ¬ (0x1c ≤ c.toNat ∧ c.toNat < 0x20)) s.toList
  let (negative, cs) := match cs with
    | '-' :: cs => (true, cs)
    | '+' :: cs => (false, cs)
    | cs => (false, cs)
  match digits? cs with
  | none => .error .valueError
  | some ds =>
      if maxStrDigits < ds.length then .error .valueError
      else
        let n : ℤ := ds.foldl (fun (acc : ℤ) d => 10 * acc + d) 0
        .ok (if negative then -n else n)

example : parseInt " +1_0 " = .ok 10 ∧ parseInt "1__0" = .error .valueError ∧
    parseInt "٣" = .ok 3 ∧ parseInt "1e3" = .error .valueError := by decide +kernel

/-! ## What the ingest makes of a value -/

/-- `str(value)`. -/
def text : Value → Except ConversionError String
  | .null => .ok "None"
  | .str s => .ok s
  | .int n => if maxStrDigits < (toString n.natAbs).length then .error .valueError else .ok (toString n)
  | .float text _ => .ok text
  | .bool b => .ok (if b then "True" else "False")

/-- Trim, and read an empty cell as absent. -/
def norm (v : Value) : Except ConversionError (Option String) :=
  match v with
  | .null => .ok none
  | v => do
      let s := strip (← text v)
      return if s = "" then none else some s

/-- `int(value or 0)`. -/
def wholeNumber : Value → Except ConversionError ℤ
  | .null => .ok 0
  | .str s => if s = "" then .ok 0 else parseInt s
  | .int n => .ok n
  | .float _ (.finite whole) => .ok whole
  | .float _ .nan => .error .valueError
  | .float _ .infinite => .error .overflowError
  | .bool b => .ok (if b then 1 else 0)

/-- `_as_bool`, where `lower` is `str.lower`. -/
def asBool (lower : String → String) (v : Value) (default : Bool) : Except ConversionError Bool :=
  match v with
  | .null => .ok default
  | .str "" => .ok default
  | .bool b => .ok b
  | v => do
      return lower (strip (← text v)) ∈ ["1", "true", "t", "yes", "y"]

end OfficeConnect.Ingest
