import WebAtlas.Text.WordTable
import WebAtlas.Text.CaseTable
import WebAtlas.Text.PrintableTable

/-! # Character classes

Blanks, word characters, case and printability over all of Unicode. Membership in a table walks its
ascending spans and stops at the first one above the code point, so an early character is cheap.
-/
namespace WebAtlas.Text

def inSpans : List (Nat × Nat) → Nat → Bool
  | [], _ => false
  | (first, last) :: rest, c => if c < first then false else c ≤ last || inSpans rest c

def inRuns : List (Nat × Nat × Nat) → Nat → Bool
  | [], _ => false
  | (first, last, stride) :: rest, c =>
    if c < first then false else (c ≤ last && (c - first) % stride == 0) || inRuns rest c

/-- The distance to the lowercase form of a code point; zero where a code point is its own. -/
def shiftIn : List (Nat × Nat × Nat × Int) → Nat → Int
  | [], _ => 0
  | (first, last, stride, shift) :: rest, c =>
    if c < first then 0
    else if c ≤ last && (c - first) % stride == 0 then shift
    else shiftIn rest c

/-- Spans of blanks: spaces, tabs, line ends, the separators U+001C to U+001F and NEL. -/
def blankSpans : List (Nat × Nat) :=
  [(0x9, 0xD), (0x1C, 0x20), (0x85, 0x85), (0xA0, 0xA0), (0x1680, 0x1680), (0x2000, 0x200A),
   (0x2028, 0x2029), (0x202F, 0x202F), (0x205F, 0x205F), (0x3000, 0x3000)]

def isBlank (c : Char) : Bool := inSpans blankSpans c.toNat

/-- Blanks that stay on their line. -/
def isInlineBlank (c : Char) : Bool := isBlank c && c != '\n' && c != '\r'

/-- Letters and numbers of every script, and the underscore; combining marks are none. -/
def isWordChar (c : Char) : Bool := c == '_' || inSpans alphanumericSpans c.toNat

def isDecimalDigit (c : Char) : Bool := inSpans decimalDigitSpans c.toNat

def isUppercase (c : Char) : Bool := inRuns uppercaseRuns c.toNat

def isCaseIgnorable (c : Char) : Bool := inSpans caseIgnorableSpans c.toNat

def isCased (c : Char) : Bool := inSpans casedSpans c.toNat

def isPrintable (c : Char) : Bool := !inSpans unprintableSpans c.toNat

/-- A text starts with a capital when its first character is uppercase; the empty text does not. -/
def startsUppercase (text : String) : Bool := text.toList.head?.any isUppercase

end WebAtlas.Text
