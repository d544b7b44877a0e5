import WebAtlas.Text.Scan

/-! # Integers in settings

A lenient form: blanks around it, a plus sign, leading zeros, single underscores between digits and a
fraction of zeros only. After a minus sign no leading zeros are taken.
-/
namespace WebAtlas.Settings

/-- Blanks that may surround a number; the separators U+001C to U+001F may not. -/
def isPadding (c : Char) : Bool := Text.isBlank c && !(0x1C ≤ c.toNat && c.toNat ≤ 0x1F)

def unpadded (text : List Char) : List Char :=
  ((text.dropWhile isPadding).reverse.dropWhile isPadding).reverse

def withoutPlus? : List Char → Option (List Char)
  | '+' :: '-' :: _ => none
  | '+' :: rest => some rest
  | text => some text

/-- The rest after leading zeros and underscores among them, keeping the last character if that is
all there is, and the one before a point. -/
def afterZeros (last : Char) : List Char → Option (List Char)
  | [] => some [last]
  | c :: rest =>
    if c = '0' || c = '_' then afterZeros c rest
    else if c.isDigit then some (c :: rest)
    else if c = '.' then some (last :: c :: rest)
    else none

def withoutLeadingZeros? : List Char → Option (List Char)
  | '0' :: rest => afterZeros '0' rest
  | c :: rest => if c.isDigit || c = '-' then some (c :: rest) else none
  | [] => none

/-- Cuts a point at the end with nothing but zeros after it. -/
def withoutZeroFraction (text : List Char) : List Char :=
  match text.dropWhile (· ≠ '.') with
  | _ :: fraction => if fraction.all (· == '0') then text.takeWhile (· ≠ '.') else text
  | [] => text

/-- Whether underscores stand only inside, none beside another. -/
def separatesDigits (text : List Char) : Bool :=
  text.head? != some '_' && text.getLast? != some '_' && !Text.occursIn ['_', '_'] text

def withoutUnderscores (text : List Char) : List Char :=
  if separatesDigits text then text.filter (· ≠ '_') else text

/-- Plain digits, the first of several not a zero. -/
def natural? (digits : List Char) : Option Nat :=
  if digits.isEmpty || !digits.all Char.isDigit || (1 < digits.length && digits.head? == some '0') then none
  else some (digits.foldl (fun value digit => value * 10 + (digit.toNat - '0'.toNat)) 0)

def integer? (text : String) : Option Int := do
  let digits ← withoutLeadingZeros? (← withoutPlus? (unpadded text.toList))
  match withoutUnderscores (withoutZeroFraction digits) with
  | '-' :: digits => return -((← natural? digits) : Int)
  | digits => return ((← natural? digits) : Int)

end WebAtlas.Settings
