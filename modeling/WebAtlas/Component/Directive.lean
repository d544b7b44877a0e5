import WebAtlas.Text.Scan

/-! # Client directive

A component runs in the browser when a line of its file says so: the directive in quotes, perhaps a
semicolon, and only blanks after it.
-/
namespace WebAtlas

inductive ExecutionContext
  | interactive
  | nonInteractive
deriving DecidableEq, Repr

namespace ExecutionContext

def name : ExecutionContext → String
  | .interactive => "interactive"
  | .nonInteractive => "non-interactive"

/-- Whether blanks, line ends among them, lead to the end of a line or of the text. -/
def blankToLineEnd : List Char → Bool
  | [] => true
  | c :: text => c == '\n' || (Text.isBlank c && blankToLineEnd text)

def directiveStarts (text : List Char) : Bool :=
  let rest := do
    let text ← Text.afterChar Text.isQuote text
    let text ← Text.afterWord "use client".toList text
    Text.afterChar Text.isQuote text
  rest.any fun text => blankToLineEnd ((Text.afterWord [';'] text).getD text)

/-- Whether a directive starts at the beginning of a line; `lineStarts` says whether one does here. -/
def hasDirective (lineStarts : Bool) : List Char → Bool
  | [] => false
  | c :: text => (lineStarts && directiveStarts (c :: text)) || hasDirective (c == '\n') text

def infer (text : String) : ExecutionContext :=
  if hasDirective true text.toList then .interactive else .nonInteractive

end ExecutionContext

end WebAtlas
