import WebAtlas.Text.Character

/-! # Lowercase text

Full lowercasing. Each character goes to its lowercase form on its own, with two exceptions: `İ`
becomes `i` and a combining dot, and a capital sigma that ends a word becomes the final sigma.
-/
namespace WebAtlas.Text

def lowerChar (c : Char) : List Char :=
  if c = '\u0130' then ['i', '\u0307']
  else [Char.ofNat (c.toNat + shiftIn lowercaseRuns c.toNat).toNat]

/-- Whether the first character that is not passed over is a letter with case. -/
def letterFollows : List Char → Bool
  | [] => false
  | c :: rest => if isCaseIgnorable c then letterFollows rest else isCased c

/-- Lowercases `text` when `afterLetter` says what a backward search from its start would find. A
sigma is final when a letter stands before it and none after it. -/
def lowerFrom (afterLetter : Bool) : List Char → List Char
  | [] => []
  | c :: rest =>
    (if c = 'Σ' then [if afterLetter && !letterFollows rest then 'ς' else 'σ'] else lowerChar c) ++
      lowerFrom (if isCaseIgnorable c then afterLetter else isCased c) rest

def lower (text : List Char) : List Char := lowerFrom false text

def lowercase (text : String) : String := String.ofList (lower text.toList)

end WebAtlas.Text
