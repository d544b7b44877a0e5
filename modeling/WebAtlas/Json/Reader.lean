import WebAtlas.Json.Basic
import WebAtlas.Fault
import WebAtlas.Text.Scan

/-! # Reading JSON

A strict reader with three additions: `NaN`, `Infinity` and `-Infinity` are numbers. Strings hold no
raw control characters, an integer has a bounded number of digits, and containers nest as deep as the
stack has room for. Escaped surrogates are joined in pairs, and one that stands alone is kept.
-/
namespace WebAtlas.Json

inductive ReadFault
  | malformed
  | hugeInteger
  | nesting (container : Container)
deriving DecidableEq, Repr

def digitLimit : Nat := 4300

def isLayout (c : Char) : Bool := c == ' ' || c == '\t' || c == '\n' || c == '\r'

def skipLayout (text : List Char) : List Char := text.dropWhile isLayout

def hexValue? (c : Char) : Option Nat :=
  if '0' ≤ c && c ≤ '9' then some (c.toNat - '0'.toNat)
  else if 'a' ≤ c && c ≤ 'f' then some (c.toNat - 'a'.toNat + 10)
  else if 'A' ≤ c && c ≤ 'F' then some (c.toNat - 'A'.toNat + 10)
  else none

/-- The character that a one-letter escape stands for. -/
def escapeValue? : Char → Option Char
  | '"' => some '"'
  | '\\' => some '\\'
  | '/' => some '/'
  | 'b' => some '\x08'
  | 'f' => some '\x0c'
  | 'n' => some '\n'
  | 'r' => some '\r'
  | 't' => some '\t'
  | _ => none

/-- The code units of a string up to its closing quote, and what follows the quote. -/
def readUnits : List Char → Option (List Nat × List Char)
  | [] => none
  | '"' :: rest => some ([], rest)
  | '\\' :: 'u' :: a :: b :: c :: d :: rest => do
    let unit := (((← hexValue? a) * 16 + (← hexValue? b)) * 16 + (← hexValue? c)) * 16 + (← hexValue? d)
    let (units, rest) ← readUnits rest
    return (unit :: units, rest)
  | '\\' :: e :: rest => do
    let value ← escapeValue? e
    let (units, rest) ← readUnits rest
    return (value.toNat :: units, rest)
  | c :: rest => do
    guard (0x20 ≤ c.toNat && c != '\\')
    let (units, rest) ← readUnits rest
    return (c.toNat :: units, rest)

def isHighSurrogate (unit : Nat) : Bool := 0xD800 ≤ unit && unit < 0xDC00

def isLowSurrogate (unit : Nat) : Bool := 0xDC00 ≤ unit && unit < 0xE000

/-- Code points from code units, a high and a low surrogate after it making one. -/
def joinUnits : List Nat → List Nat
  | [] => []
  | [unit] => [unit]
  | high :: low :: rest =>
    if isHighSurrogate high && isLowSurrogate low then
      (0x10000 + (high - 0xD800) * 0x400 + (low - 0xDC00)) :: joinUnits rest
    else high :: joinUnits (low :: rest)

/-- A string whose opening quote has been read. -/
def readString (text : List Char) : Except ReadFault (CodePoints × List Char) :=
  match readUnits text with
  | some (units, rest) => .ok (⟨joinUnits units⟩, rest)
  | none => .error .malformed

def digitsValue (digits : List Char) : Nat :=
  digits.foldl (fun value digit => value * 10 + (digit.toNat - '0'.toNat)) 0

/-- The digits before a fraction: a single zero, or digits of which the first is none. -/
def readWhole : List Char → Option (List Char × List Char)
  | '0' :: rest => some (['0'], rest)
  | text => Text.run Char.isDigit text

def readFraction : List Char → List Char × List Char
  | '.' :: rest =>
    match Text.run Char.isDigit rest with
    | some (digits, rest) => ('.' :: digits, rest)
    | none => ([], '.' :: rest)
  | text => ([], text)

def readExponent : List Char → List Char × List Char
  | [] => ([], [])
  | e :: rest =>
    if e = 'e' || e = 'E' then
      let sign := rest.takeWhile (fun c => c == '+' || c == '-') |>.take 1
      match Text.run Char.isDigit (rest.drop sign.length) with
      | some (digits, after) => (e :: sign ++ digits, after)
      | none => ([], e :: rest)
    else ([], e :: rest)

def readNumber (text : List Char) : Except ReadFault (Parsed × List Char) :=
  let sign := if text.head? = some '-' then ['-'] else []
  match readWhole (text.drop sign.length) with
  | none => .error .malformed
  | some (whole, rest) =>
    let (fraction, rest) := readFraction rest
    let (exponent, rest) := readExponent rest
    if fraction.isEmpty && exponent.isEmpty then
      if digitLimit < whole.length then .error .hugeInteger
      else
        let value : Int := digitsValue whole
        .ok (.int (if sign.isEmpty then value else -value), rest)
    else .ok (.decimal (String.ofList (sign ++ whole ++ fraction ++ exponent)), rest)

def wordValues : List (String × Parsed) :=
  [("null", .null), ("true", .bool true), ("false", .bool false), ("NaN", .decimal "NaN"),
   ("Infinity", .decimal "Infinity"), ("-Infinity", .decimal "-Infinity")]

def readScalar (text : List Char) : Except ReadFault (Parsed × List Char) :=
  match wordValues.findSome? fun (word, value) =>
      (Text.afterWord word.toList text).map (value, ·) with
  | some result => .ok result
  | none => readNumber text

abbrev Read (α : Type) := List Char → Except ReadFault (α × List Char)

/-- One or more parts between commas up to a closing character, at most `count` of them. -/
def readParts {α : Type} (part : Read α) (close : Char) : Nat → Read (List α)
  | 0, _ => .error .malformed
  | count + 1, text => do
    let (value, rest) ← part text
    match skipLayout rest with
    | c :: rest =>
      if c = close then return ([value], rest)
      else if c = ',' then
        let (values, rest) ← readParts part close count (skipLayout rest)
        return (value :: values, rest)
      else throw .malformed
    | [] => throw .malformed

/-- The parts of a container whose opening character has been read. -/
def readContainer {α : Type} (part : Read α) (close : Char) : Read (List α) := fun text =>
  match skipLayout text with
  | [] => .error .malformed
  | c :: rest =>
    if c = close then .ok ([], rest) else readParts part close (rest.length + 1) (c :: rest)

def readMember (value : Read Parsed) : Read (CodePoints × Parsed)
  | '"' :: text => do
    let (name, rest) ← readString text
    match skipLayout rest with
    | ':' :: rest =>
      let (v, rest) ← value (skipLayout rest)
      return ((name, v), rest)
    | _ => throw .malformed
  | _ => .error .malformed

/-- A value with containers at most `depth` deep. -/
def readValue : Nat → Read Parsed
  | _, '"' :: text => do
    let (value, rest) ← readString text
    return (.string value, rest)
  | 0, '[' :: _ => .error (.nesting .array)
  | 0, '{' :: _ => .error (.nesting .object)
  | depth + 1, '[' :: text => do
    let (items, rest) ← readContainer (readValue depth) ']' text
    return (.array items, rest)
  | depth + 1, '{' :: text => do
    let (members, rest) ← readContainer (readMember (readValue depth)) '}' text
    return (.object members, rest)
  | _, text => readScalar text

/-- A whole text that is one value, with layout around it, when the stack has room for `room` nested
containers. -/
def read (room : Nat) (text : List Char) : Except ReadFault Parsed := do
  let (value, rest) ← readValue room (skipLayout text)
  if (skipLayout rest).isEmpty then return value else throw .malformed

end WebAtlas.Json
