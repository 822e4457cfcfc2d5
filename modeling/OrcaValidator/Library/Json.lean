import Mathlib.Algebra.Group.Nat.Defs
import OrcaValidator.Library.Dict
import OrcaValidator.Library.Text

/-!
# JSON values as Python sees them

The values that `json.loads` produces, the reader itself, and the dynamic
operations a program applies to a value whose shape it has not checked: truth
testing, attribute access, iteration and conversion to a string.  An operation
that a type does not support fails with the message of the exception Python raises.

The reader follows `json.loads` with its defaults: control characters are refused
inside strings, the tokens `NaN`, `Infinity` and `-Infinity` are accepted, the last
of several equal keys wins, and an integer of more than 4300 digits is refused.  A
`Char` is a Unicode scalar value, so an unpaired surrogate escape, which Python
keeps, is read as U+FFFD.
-/

namespace Library

/-- A binary64 floating-point number: a special value, or `±mantissa · 2 ^ exponent`. -/
inductive Binary64 where
  | nan
  | infinity (negative : Bool)
  | finite (negative : Bool) (mantissa : Nat) (exponent : Int)
  deriving DecidableEq

namespace Binary64

/-- `numerator / denominator` rounded to an integer, ties to even. -/
def roundHalfEven (numerator denominator : Nat) : Nat :=
  let quotient := numerator / denominator
  let twice := 2 * (numerator % denominator)
  if twice < denominator then quotient
  else if denominator < twice then quotient + 1
  else quotient + quotient % 2

/-- The numerator and denominator of `numerator / denominator / 2 ^ exponent`. -/
def scale (numerator denominator : Nat) (exponent : Int) : Nat × Nat :=
  (numerator * 2 ^ (-exponent).toNat, denominator * 2 ^ exponent.toNat)

/-- The number nearest to `±numerator / denominator`. -/
def ofRatio (negative : Bool) (numerator denominator : Nat) : Binary64 :=
  if numerator = 0 then .finite negative 0 0
  else
    let guess : Int := Nat.log2 numerator - Nat.log2 denominator - 53
    let wide := scale numerator denominator guess
    let exponent := max (-1074) (if 2 ^ 53 ≤ wide.1 / wide.2 then guess + 1 else guess)
    let exact := scale numerator denominator exponent
    let mantissa := roundHalfEven exact.1 exact.2
    if 2 ^ 1024 ≤ mantissa * 2 ^ exponent.toNat then .infinity negative
    else .finite negative mantissa exponent

/-- The number nearest to `±digits · 10 ^ exponent`. -/
def ofDecimal (negative : Bool) (digits : Nat) (exponent : Int) : Binary64 :=
  ofRatio negative (digits * 10 ^ exponent.toNat) (10 ^ (-exponent).toNat)

/-- Truth value testing: every number but the two zeros is true. -/
def truthy : Binary64 → Bool
  | .nan => true
  | .infinity _ => true
  | .finite _ mantissa _ => mantissa ≠ 0

end Binary64

/-- A value that `json.loads` returns. -/
inductive Json where
  | null
  | bool (value : Bool)
  | int (value : Int)
  | float (value : Binary64)
  | str (value : Text)
  | arr (items : List Json)
  | obj (members : List (Text × Json))

/-- An exception with the name of its class and its text. -/
structure PyException where
  className : Text
  message : Text
  deriving DecidableEq

namespace Json

mutual

/-- Equality of values is decidable. -/
def decideEq : (left right : Json) → Decidable (left = right)
  | .null, .null => .isTrue rfl
  | .bool left, .bool right => decidable_of_iff (left = right) (by simp)
  | .int left, .int right => decidable_of_iff (left = right) (by simp)
  | .float left, .float right => decidable_of_iff (left = right) (by simp)
  | .str left, .str right => decidable_of_iff (left = right) (by simp)
  | .arr left, .arr right =>
      match decideItems left right with
      | .isTrue same => .isTrue (by rw [same])
      | .isFalse differ => .isFalse fun equal => differ (by injection equal)
  | .obj left, .obj right =>
      match decideMembers left right with
      | .isTrue same => .isTrue (by rw [same])
      | .isFalse differ => .isFalse fun equal => differ (by injection equal)
  | .null, .bool _ | .null, .int _ | .null, .float _ | .null, .str _ | .null, .arr _
  | .null, .obj _ | .bool _, .null | .bool _, .int _ | .bool _, .float _ | .bool _, .str _
  | .bool _, .arr _ | .bool _, .obj _ | .int _, .null | .int _, .bool _ | .int _, .float _
  | .int _, .str _ | .int _, .arr _ | .int _, .obj _ | .float _, .null | .float _, .bool _
  | .float _, .int _ | .float _, .str _ | .float _, .arr _ | .float _, .obj _
  | .str _, .null | .str _, .bool _ | .str _, .int _ | .str _, .float _ | .str _, .arr _
  | .str _, .obj _ | .arr _, .null | .arr _, .bool _ | .arr _, .int _ | .arr _, .float _
  | .arr _, .str _ | .arr _, .obj _ | .obj _, .null | .obj _, .bool _ | .obj _, .int _
  | .obj _, .float _ | .obj _, .str _ | .obj _, .arr _ => .isFalse (by simp)

/-- Equality of the items of arrays is decidable. -/
def decideItems : (left right : List Json) → Decidable (left = right)
  | [], [] => .isTrue rfl
  | [], _ :: _ => .isFalse (by simp)
  | _ :: _, [] => .isFalse (by simp)
  | left :: lefts, right :: rights =>
      match decideEq left right, decideItems lefts rights with
      | .isTrue same, .isTrue rest => .isTrue (by rw [same, rest])
      | .isFalse differ, _ => .isFalse fun equal => differ (by injection equal)
      | _, .isFalse differ => .isFalse fun equal => differ (by injection equal)

/-- Equality of the members of objects is decidable. -/
def decideMembers : (left right : List (Text × Json)) → Decidable (left = right)
  | [], [] => .isTrue rfl
  | [], _ :: _ => .isFalse (by simp)
  | _ :: _, [] => .isFalse (by simp)
  | (leftKey, left) :: lefts, (rightKey, right) :: rights =>
      match decEq leftKey rightKey, decideEq left right, decideMembers lefts rights with
      | .isTrue key, .isTrue same, .isTrue rest => .isTrue (by rw [key, same, rest])
      | .isFalse differ, _, _ => .isFalse (by simp [differ])
      | _, .isFalse differ, _ => .isFalse (by simp [differ])
      | _, _, .isFalse differ => .isFalse (by simp [differ])

end

instance : DecidableEq Json := decideEq

/-- The name of the Python type of a value. -/
def typeName : Json → Text
  | .null => "NoneType".toList
  | .bool _ => "bool".toList
  | .int _ => "int".toList
  | .float _ => "float".toList
  | .str _ => "str".toList
  | .arr _ => "list".toList
  | .obj _ => "dict".toList

/-- `bool(value)`. -/
def truthy : Json → Bool
  | .null => false
  | .bool value => value
  | .int value => value ≠ 0
  | .float value => value.truthy
  | .str value => value ≠ []
  | .arr items => !items.isEmpty
  | .obj members => !members.isEmpty

/-- `left or right`; an absent value is `None`. -/
def orElse (left : Option Json) (right : Json) : Json :=
  match left with
  | some value => if value.truthy then value else right
  | none => right

/-- `value.get(key)`; only a `dict` has the attribute. -/
def get (value : Json) (key : Text) : Except PyException (Option Json) :=
  match value with
  | .obj members => .ok (Dict.find key members)
  | other => .error ⟨"AttributeError".toList,
      "'".toList ++ other.typeName ++ "' object has no attribute 'get'".toList⟩

/-- `iter(value)`: the items of a list, the characters of a string, the keys of a dict. -/
def iter : Json → Except PyException (List Json)
  | .arr items => .ok items
  | .str value => .ok (value.map fun char => .str [char])
  | .obj members => .ok (members.map fun member => .str member.1)
  | other => .error ⟨"TypeError".toList,
      "'".toList ++ other.typeName ++ "' object is not iterable".toList⟩

/-! ## Reading -/

/-- The text behind leading white space. -/
def skipSpace (text : Text) : Text :=
  text.dropWhile fun char => char == ' ' || char == '\t' || char == '\n' || char == '\r'

/-- A decimal digit. -/
def isDigit (char : Char) : Bool := '0' ≤ char && char ≤ '9'

/-- The value of a decimal digit. -/
def digitValue (char : Char) : Nat := char.toNat - '0'.toNat

/-- The number that digits spell. -/
def ofDigits (digits : Text) : Nat :=
  digits.foldl (fun number digit => 10 * number + digitValue digit) 0

/-- The value of a hexadecimal digit. -/
def hexValue (char : Char) : Option Nat :=
  if isDigit char then some (digitValue char)
  else if 'a' ≤ char && char ≤ 'f' then some (char.toNat - 'a'.toNat + 10)
  else if 'A' ≤ char && char ≤ 'F' then some (char.toNat - 'A'.toNat + 10)
  else none

/-- The code unit of the four digits of a `\u` escape. -/
def hexUnit (first second third fourth : Char) : Option Nat := do
  let first ← hexValue first
  let second ← hexValue second
  let third ← hexValue third
  let fourth ← hexValue fourth
  return ((first * 16 + second) * 16 + third) * 16 + fourth

/-- What follows the backslash of a two-character escape. -/
def shortEscape (char : Char) : Option Char :=
  match char with
  | '"' => some '"'
  | '\\' => some '\\'
  | '/' => some '/'
  | 'b' => some '\x08'
  | 'f' => some '\x0c'
  | 'n' => some '\n'
  | 'r' => some '\r'
  | 't' => some '\t'
  | _ => none

/-- The code units of a string up to its closing quote, and the text after it. -/
def scanString : Text → Option (List Nat × Text)
  | [] => none
  | '"' :: rest => some ([], rest)
  | '\\' :: 'u' :: first :: second :: third :: fourth :: rest => do
      let unit ← hexUnit first second third fourth
      let (units, rest) ← scanString rest
      return (unit :: units, rest)
  | '\\' :: char :: rest => do
      let char ← shortEscape char
      let (units, rest) ← scanString rest
      return (char.toNat :: units, rest)
  | char :: rest =>
      if char.toNat < 0x20 then none
      else do
        let (units, rest) ← scanString rest
        return (char.toNat :: units, rest)

/-- Code units to characters: a high surrogate and the low surrogate after it are one. -/
def joinSurrogates : List Nat → Text
  | [] => []
  | [unit] => [if unit.isValidChar then Char.ofNat unit else '\uFFFD']
  | high :: low :: rest =>
      if 0xd800 ≤ high && high < 0xdc00 && 0xdc00 ≤ low && low < 0xe000 then
        Char.ofNat (0x10000 + (high - 0xd800) * 0x400 + (low - 0xdc00)) :: joinSurrogates rest
      else
        (if high.isValidChar then Char.ofNat high else '\uFFFD') :: joinSurrogates (low :: rest)

/-- A string from behind its opening quote, and what follows it. -/
def string (text : Text) : Option (Text × Text) :=
  (scanString text).map fun (units, rest) => (joinSurrogates units, rest)

/-- The fraction of a number, if there is one: its digits and the text after it. -/
def fraction : Text → Text × Text
  | '.' :: rest =>
      if (rest.takeWhile isDigit).isEmpty then ([], '.' :: rest) else rest.span isDigit
  | rest => ([], rest)

/-- The sign and the digits of an exponent, and the text after it. -/
def exponent : Text → Option (Bool × Text × Text)
  | marker :: rest =>
      if marker == 'e' || marker == 'E' then
        let (negative, digits) := match rest with
          | '-' :: digits => (true, digits)
          | '+' :: digits => (false, digits)
          | digits => (false, digits)
        if (digits.takeWhile isDigit).isEmpty then none
        else some (negative, digits.span isDigit)
      else none
  | [] => none

/-- The longest integer that `int` reads from decimal digits. -/
def maxStrDigits : Nat := 4300

/-- A number without its sign: an integer unless it has a fraction or an exponent. -/
def number (negative : Bool) (text : Text) : Option (Json × Text) := do
  let (whole, rest) ← match text with
    | '0' :: rest => some (['0'], rest)
    | char :: rest => if isDigit char then some ((char :: rest).span isDigit) else none
    | [] => none
  let (decimals, rest) := fraction rest
  match exponent rest with
  | some (below, digits, rest) =>
      let power : Int := if below then -(ofDigits digits) else ofDigits digits
      return (.float (.ofDecimal negative (ofDigits (whole ++ decimals))
        (power - decimals.length)), rest)
  | none =>
      if decimals.isEmpty then
        if maxStrDigits < whole.length then none
        else return (.int (if negative then -(ofDigits whole) else ofDigits whole), rest)
      else
        return (.float (.ofDecimal negative (ofDigits (whole ++ decimals))
          (-decimals.length)), rest)

/-- A value that is neither a string nor an array nor an object, and what follows it. -/
def scalar (text : Text) : Option (Json × Text) :=
  if "null".toList <+: text then some (.null, text.drop 4)
  else if "true".toList <+: text then some (.bool true, text.drop 4)
  else if "false".toList <+: text then some (.bool false, text.drop 5)
  else if "NaN".toList <+: text then some (.float .nan, text.drop 3)
  else if "Infinity".toList <+: text then some (.float (.infinity false), text.drop 8)
  else if "-Infinity".toList <+: text then some (.float (.infinity true), text.drop 9)
  else match text with
    | '-' :: rest => number true rest
    | _ => number false text

mutual

/-- One value and the text after it.  Every call consumes a character before the next,
so the length of the text is enough `fuel`. -/
def value : Nat → Text → Option (Json × Text)
  | 0, _ => none
  | _ + 1, '"' :: rest => (string rest).map fun (text, rest) => (.str text, rest)
  | fuel + 1, '[' :: rest =>
      match skipSpace rest with
      | ']' :: rest => some (.arr [], rest)
      | rest => (elements fuel rest).map fun (items, rest) => (.arr items, rest)
  | fuel + 1, '{' :: rest =>
      match skipSpace rest with
      | '}' :: rest => some (.obj [], rest)
      | rest => (pairs fuel rest).map fun (items, rest) => (.obj (Dict.ofList items).entries, rest)
  | _ + 1, text => scalar text

/-- The items of an array that is not empty, and what follows it. -/
def elements : Nat → Text → Option (List Json × Text)
  | 0, _ => none
  | fuel + 1, text => do
      let (item, rest) ← value fuel text
      match skipSpace rest with
      | ']' :: rest => return ([item], rest)
      | ',' :: rest =>
          let (items, rest) ← elements fuel (skipSpace rest)
          return (item :: items, rest)
      | _ => none

/-- The members of an object that is not empty, and what follows it. -/
def pairs : Nat → Text → Option (List (Text × Json) × Text)
  | fuel + 1, '"' :: rest => do
      let (key, rest) ← string rest
      match skipSpace rest with
      | ':' :: rest =>
          let (item, rest) ← value fuel (skipSpace rest)
          match skipSpace rest with
          | '}' :: rest => return ([(key, item)], rest)
          | ',' :: rest =>
              let (items, rest) ← pairs fuel (skipSpace rest)
              return ((key, item) :: items, rest)
          | _ => none
      | _ => none
  | _, _ => none

end

/-- `json.loads(text)`; `none` where it raises. -/
def loads (text : Text) : Option Json := do
  let (result, rest) ← value (text.length + 1) (skipSpace text)
  if (skipSpace rest).isEmpty then return result else none

end Json

end Library
