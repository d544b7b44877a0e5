import WebAtlas.Text.Scan

/-! # Import statements

An import statement is the word `import`, perhaps `type`, perhaps what it binds and `from`, and a
specifier in quotes. The two quotes need not agree. A text is read from left to right, and a
statement found is passed over before the next is looked for.
-/
namespace WebAtlas.Import

def isNameChar (c : Char) : Bool := Text.isWordChar c || c == '$'

def afterName (text : List Char) : Option (List Char) := (Text.run isNameChar text).map (·.2)

def afterBraces (text : List Char) : Option (List Char) := do
  let text ← Text.afterWord ['{'] text
  Text.afterWord ['}'] (text.dropWhile (· ≠ '}'))

def afterStar (text : List Char) : Option (List Char) := do
  let text ← Text.afterBlanks (← Text.afterWord ['*'] text)
  let text ← Text.afterBlanks (← Text.afterWord ['a', 's'] text)
  afterName text

def afterGroup (text : List Char) : Option (List Char) := (afterBraces text).or (afterStar text)

def afterCommaGroup (text : List Char) : Option (List Char) := do
  let text ← Text.afterWord [','] (Text.skipBlanks text)
  afterGroup (Text.skipBlanks text)

/-- What a statement binds: a group, or a name with a group after a comma if there is one. -/
def afterBinding (text : List Char) : Option (List Char) :=
  (afterGroup text).or ((afterName text).map fun text => (afterCommaGroup text).getD text)

def specifier (text : List Char) : Option (List Char × List Char) := do
  let text ← Text.afterChar Text.isQuote text
  let (target, text) ← Text.run (!Text.isQuote ·) text
  return (target, ← Text.afterChar Text.isQuote text)

def boundSpecifier (text : List Char) : Option (List Char × List Char) := do
  let text ← Text.afterBlanks (← afterBinding text)
  let text ← Text.afterBlanks (← Text.afterWord "from".toList text)
  specifier text

def clause (text : List Char) : Option (List Char × List Char) :=
  (boundSpecifier text).or (specifier text)

/-- A statement that starts here, as its specifier and what follows. The word `type` is read as a
name only where the statement cannot be read otherwise. -/
def statement (text : List Char) : Option (List Char × List Char) := do
  let text ← Text.afterBlanks (← Text.afterWord "import".toList text)
  (((Text.afterWord "type".toList text).bind Text.afterBlanks).bind clause).or (clause text)

def targets (text : String) : List String :=
  (Text.matchesFrom (fun _ => true) statement none 0 text.toList).map String.ofList

/-- Whether a specifier is relative or starts with the alias prefix; the empty prefix is none. -/
def isLocal (aliasPrefix target : String) : Bool :=
  target.toList.head? == some '.' ||
    (aliasPrefix != "" && (Text.afterWord aliasPrefix.toList target.toList).isSome)

def localTargets (aliasPrefix text : String) : List String :=
  (targets text).filter (isLocal aliasPrefix)

/-- The text after the last slash of a specifier, slashes at its end aside. -/
def lastSegment (target : String) : String :=
  let reversed := target.toList.reverse.dropWhile (· == '/')
  String.ofList (reversed.takeWhile (· ≠ '/')).reverse

/-- The capitalised names of locally imported modules, each once, in the order of the text. -/
def componentNames (aliasPrefix text : String) : List String :=
  (((localTargets aliasPrefix text).map lastSegment).filter Text.startsUppercase).eraseDups

end WebAtlas.Import
