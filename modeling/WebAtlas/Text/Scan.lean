import WebAtlas.Text.Character

/-! # Reading a text from its front

A reader takes the characters ahead and returns those after what it accepts, or nothing. Runs are
taken whole: every reader here is followed by one that rejects the characters of the run before it.
-/
namespace WebAtlas.Text

def afterWord : List Char → List Char → Option (List Char)
  | [], text => some text
  | _ :: _, [] => none
  | w :: word, c :: text => if w = c then afterWord word text else none

def skipBlanks (text : List Char) : List Char := text.dropWhile isBlank

/-- The characters after a run of at least one blank. -/
def afterBlanks : List Char → Option (List Char)
  | [] => none
  | c :: text => if isBlank c then some (skipBlanks text) else none

/-- The longest run of accepted characters, at least one, and what follows it. -/
def run (accepts : Char → Bool) (text : List Char) : Option (List Char × List Char) :=
  match text.takeWhile accepts with
  | [] => none
  | taken => some (taken, text.dropWhile accepts)

def afterChar (accepts : Char → Bool) : List Char → Option (List Char)
  | [] => none
  | c :: text => if accepts c then some text else none

/-- Whether some place of the text, its end included, satisfies a test on the characters ahead. -/
def somewhere (test : List Char → Bool) : List Char → Bool
  | [] => test []
  | c :: text => test (c :: text) || somewhere test text

/-- Whether `needle` stands somewhere in the text; the empty needle stands in every text. -/
def occursIn (needle text : List Char) : Bool :=
  somewhere (fun ahead => (afterWord needle ahead).isSome) text

/-- Everything that `read` takes at the places of a text where `allowed` accepts the character before,
from left to right and without overlaps. `skip` counts the characters ahead that the last match
still covers. -/
def matchesFrom {α : Type} (allowed : Option Char → Bool) (read : List Char → Option (α × List Char)) :
    Option Char → Nat → List Char → List α
  | _, _, [] => []
  | _, skip + 1, c :: text => matchesFrom allowed read (some c) skip text
  | before, 0, c :: text =>
    match if allowed before then read (c :: text) else none with
    | some (found, rest) =>
      found :: matchesFrom allowed read (some c) (text.length - rest.length) text
    | none => matchesFrom allowed read (some c) 0 text

def isQuote (c : Char) : Bool := c == '"' || c == '\''

def trimBlanks (text : List Char) : List Char :=
  ((text.dropWhile isBlank).reverse.dropWhile isBlank).reverse

def trim (text : String) : String := String.ofList (trimBlanks text.toList)

/-- The maximal runs of characters that are not blank; `word` holds the run being read, reversed. -/
def wordsFrom (word : List Char) : List Char → List (List Char)
  | [] => if word.isEmpty then [] else [word.reverse]
  | c :: text =>
    if isBlank c then
      if word.isEmpty then wordsFrom [] text else word.reverse :: wordsFrom [] text
    else wordsFrom (c :: word) text

def words (text : List Char) : List (List Char) := wordsFrom [] text

def splitOn (separator : Char) (text : String) : List String :=
  (text.toList.splitOn separator).map String.ofList

end WebAtlas.Text
