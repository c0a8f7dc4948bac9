import OfficeConnect.Core.Audit
import OfficeConnect.Core.Decimal

/-!
# The text that is hashed

A column value is brought into JSON-native form before it is hashed and stored.  The text sorts the
entries of a dictionary by its keys as they are; the stored copy comes back with the keys as strings.
A text is a list of code points, lone surrogates included.
-/

namespace OfficeConnect.Audit

open Ingest Lib

/-! ## Values -/

/-- A `str`, by its code points. -/
abbrev PyStr := List ℕ

def ofText (s : String) : PyStr := s.toList.map Char.toNat

/-- A code point that a JSON text shows as it is. -/
def Plain (c : ℕ) : Prop := 0x20 ≤ c ∧ c < 0x7f ∧ c ≠ 0x22 ∧ c ≠ 0x5c

instance : DecidablePred Plain := fun _ => inferInstanceAs (Decidable (_ ∧ _ ∧ _ ∧ _))

/-- The number a comparison sees; an infinity is an end of the line. -/
abbrev Extended := WithBot (WithTop ℚ)

/-- A float by its value, none for a NaN, and its `repr`. -/
structure PyFloat where
  value : Option Extended
  repr : PyStr
  plain : ∀ c ∈ repr, Plain c
deriving DecidableEq

/-- A hashable key; `other` is a key that JSON has no text for: a Decimal, a date, bytes, a tuple. -/
inductive PyKey where
  | none
  | bool (b : Bool)
  | int (n : ℤ)
  | float (f : PyFloat)
  | str (s : PyStr)
  | other
deriving DecidableEq

/-- A value of a column; a Decimal comes with its `str`, an aware datetime with its `isoformat`. -/
inductive PyValue where
  | none
  | bool (b : Bool)
  | int (n : ℤ)
  | float (f : PyFloat)
  | decimal (text : PyStr)
  | date (day : Day)
  | datetime (text : PyStr)
  | bytes (data : List UInt8)
  | str (s : PyStr)
  | list (items : List PyValue)
  | tuple (items : List PyValue)
  | dict (fields : List (PyKey × PyValue))

/-- What `serialize_value` makes of one. -/
inductive Native where
  | null
  | bool (b : Bool)
  | int (n : ℤ)
  | str (s : PyStr)
  | list (items : List Native)
  | obj (fields : List (PyKey × Native))

/-! ## Serialization -/

def base64Digit (n : ℕ) : ℕ :=
  (ofText "ABCDEFGHIJKLMNOPQRSTUVWXYZabcdefghijklmnopqrstuvwxyz0123456789+/").getD n 0

/-- `base64.b64encode`. -/
def base64 : List UInt8 → PyStr
  | [] => []
  | [a] =>
      [base64Digit (a.toNat / 4), base64Digit (a.toNat % 4 * 16), 0x3d, 0x3d]
  | [a, b] =>
      [base64Digit (a.toNat / 4), base64Digit (a.toNat % 4 * 16 + b.toNat / 16),
        base64Digit (b.toNat % 16 * 4), 0x3d]
  | a :: b :: c :: rest =>
      base64Digit (a.toNat / 4) :: base64Digit (a.toNat % 4 * 16 + b.toNat / 16) ::
        base64Digit (b.toNat % 16 * 4 + c.toNat / 64) :: base64Digit (c.toNat % 64) :: base64 rest

example : base64 [0x61, 0x62, 0x63, 0x64] = ofText "YWJjZA==" := by decide +kernel

mutual

/-- `serialize_value`. -/
def serializeValue : PyValue → Native
  | .none => .null
  | .bool b => .bool b
  | .int n => .int n
  | .float f => .str f.repr
  | .decimal text => .str text
  | .date day => .str (ofText (isoDate day))
  | .datetime text => .str text
  | .bytes data => .str (base64 data)
  | .str s => .str s
  | .list items => .list (serializeItems items)
  | .tuple items => .list (serializeItems items)
  | .dict fields => .obj (serializeFields fields)

def serializeItems : List PyValue → List Native
  | [] => []
  | item :: items => serializeValue item :: serializeItems items

def serializeFields : List (PyKey × PyValue) → List (PyKey × Native)
  | [] => []
  | (key, value) :: fields => (key, serializeValue value) :: serializeFields fields

end

/-! ## Keys -/

/-- The number a key counts as, a NaN being the inner `none`. -/
def PyKey.number : PyKey → Option (Option Extended)
  | bool b => some (some ((b.toNat : ℚ) : WithTop ℚ))
  | int n => some (some ((n : ℚ) : WithTop ℚ))
  | float f => some f.value
  | _ => Option.none

/-- `a < b`, where the two compare at all. -/
def PyKey.lt (a b : PyKey) : Prop :=
  match a, b with
  | str s, str t => s < t
  | a, b =>
      match a.number, b.number with
      | some (some x), some (some y) => x < y
      | _, _ => False

def PyKey.isStr : PyKey → Bool
  | str _ => true
  | _ => false

/-- Keys that compare with each other: a list sorts without a `TypeError`. -/
def Comparable (keys : List PyKey) : Prop :=
  keys.length ≤ 1 ∨ (∀ k ∈ keys, k.isStr) ∨ ∀ k ∈ keys, k.number ≠ none

instance (keys : List PyKey) : Decidable (Comparable keys) :=
  inferInstanceAs (Decidable (_ ∨ (∀ k ∈ keys, k.isStr) ∨ ∀ k ∈ keys, k.number ≠ none))

/-- Comparable keys any two of which are in order one way or the other: no NaN is among them. -/
def Orderable (keys : List PyKey) : Prop :=
  (∀ k ∈ keys, k.isStr) ∨ ∀ k ∈ keys, ∃ x, k.number = some (some x)

/-- `list.sort` as the positions of the keys in the order it brings them into.  What it does with a
NaN is not said. -/
structure KeyOrder where
  order : List PyKey → List ℕ
  perm : ∀ keys, (order keys).Perm (List.range keys.length)
  sorts : ∀ keys, Orderable keys → (order keys).Pairwise fun i j =>
    ∀ a ∈ keys[i]?, ∀ b ∈ keys[j]?, ¬ b.lt a

/-- The entries in the order of their keys. -/
def KeyOrder.arrange {α : Type} (o : KeyOrder) (keys : List PyKey) (entries : List α) : List α :=
  (o.order keys).filterMap fun i => entries[i]?

/-- `int.__repr__`. -/
def intText (n : ℤ) : PyStr := ofText (toString n)

/-- The text of a key that has one. -/
def PyKey.text : PyKey → PyStr
  | none => ofText "null"
  | bool b => ofText (if b then "true" else "false")
  | int n => intText n
  | float f =>
      match f.value with
      | Option.none => ofText "NaN"
      | some ⊥ => ofText "-Infinity"
      | some (some ⊤) => ofText "Infinity"
      | some (some (some _)) => f.repr
  | str s => s
  | other => []

/-- `int.__repr__` refuses a number of too many digits. -/
def tooLong (n : ℤ) : Prop := maxStrDigits < (toString n.natAbs).length

instance (n : ℤ) : Decidable (tooLong n) := inferInstanceAs (Decidable (_ < _))

/-- What the encoder raises for a key it has no text for. -/
def PyKey.check : PyKey → Except Fault Unit
  | other => .error .typeError
  | int n => refuse (tooLong n) .valueError
  | _ => .ok ()

/-! ## The text -/

def hexDigit (n : ℕ) : Char := "0123456789abcdef".toList.getD n '0'

def unicodeEscape (unit : ℕ) : List Char :=
  ['\\', 'u', hexDigit (unit / 4096 % 16), hexDigit (unit / 256 % 16), hexDigit (unit / 16 % 16),
    hexDigit (unit % 16)]

/-- One code point inside a string; beyond the basic plane, as a pair of surrogates. -/
def escape (c : ℕ) : List Char :=
  if Plain c then [Char.ofNat c]
  else if c = 0x22 then ['\\', '"']
  else if c = 0x5c then ['\\', '\\']
  else if c = 0x0a then ['\\', 'n']
  else if c = 0x0d then ['\\', 'r']
  else if c = 0x09 then ['\\', 't']
  else if c = 0x0c then ['\\', 'f']
  else if c = 0x08 then ['\\', 'b']
  else if c < 0x10000 then unicodeEscape c
  else unicodeEscape (0xd800 + (c - 0x10000) / 0x400) ++
    unicodeEscape (0xdc00 + (c - 0x10000) % 0x400)

def quote (s : PyStr) : List Char := '"' :: (s.flatMap escape ++ ['"'])

/-- The parts with commas between them. -/
def joined : List (List Char) → List Char
  | [] => []
  | [p] => p
  | p :: q :: rest => p ++ ',' :: joined (q :: rest)

def fieldText (key : PyKey) (text : List Char) : List Char := quote key.text ++ ':' :: text

mutual

/-- `canonical_json`: sorted keys, no blanks, ASCII only. -/
def canonicalJson (o : KeyOrder) : Native → Except Fault (List Char)
  | .null => .ok "null".toList
  | .bool b => .ok (if b then "true" else "false").toList
  | .int n => do
      refuse (tooLong n) .valueError
      return (toString n).toList
  | .str s => .ok (quote s)
  | .list items => do
      let parts ← canonicalItems o items
      return '[' :: (joined parts ++ [']'])
  | .obj fields => do
      let parts ← canonicalFields o fields
      refuse (¬ Comparable (fields.map Prod.fst)) .typeError
      return '{' :: (joined (o.arrange (fields.map Prod.fst) parts) ++ ['}'])

def canonicalItems (o : KeyOrder) : List Native → Except Fault (List (List Char))
  | [] => .ok []
  | item :: items => do
      let text ← canonicalJson o item
      let parts ← canonicalItems o items
      return text :: parts

def canonicalFields (o : KeyOrder) : List (PyKey × Native) → Except Fault (List (List Char))
  | [] => .ok []
  | (key, value) :: fields => do
      key.check
      let text ← canonicalJson o value
      let parts ← canonicalFields o fields
      return fieldText key text :: parts

end

/-! ## The stored copy -/

/-- Of the entries under one key the last. -/
def lastOfEach {α : Type} : List (PyKey × α) → List (PyKey × α)
  | [] => []
  | (key, value) :: fields =>
      if key ∈ fields.map Prod.fst then lastOfEach fields
      else (key, value) :: lastOfEach fields

mutual

/-- The value written as JSON and read back: the keys are strings. -/
def readBack : Native → Native
  | .null => .null
  | .bool b => .bool b
  | .int n => .int n
  | .str s => .str s
  | .list items => .list (readBackItems items)
  | .obj fields => .obj (lastOfEach (readBackFields fields))

def readBackItems : List Native → List Native
  | [] => []
  | item :: items => readBack item :: readBackItems items

def readBackFields : List (PyKey × Native) → List (PyKey × Native)
  | [] => []
  | (key, value) :: fields => (.str key.text, readBack value) :: readBackFields fields

end

end OfficeConnect.Audit
