import WebAtlas.Text.Scan

/-! # Command line arguments

One project path, an output directory and a log level. Options may be shortened as long as they stay
unambiguous, take their value after `=` or as the next word, and may stand before or after the path;
after `--` everything is a word. What kind an argument is of is settled for all of them first, so an
ambiguous one is refused even behind a request for help.
-/
namespace WebAtlas.CommandLine

inductive ValueOption
  | outputDirectory
  | logLevel
deriving DecidableEq, Repr

structure Arguments where
  projectPath : String
  outputDirectory : Option String
  logLevel : Option String
deriving DecidableEq, Repr

inductive Refusal
  | help
  | usage
deriving DecidableEq, Repr

inductive Token
  | word (text : String)
  | separator
  | help
  /-- A request for help that carries something it cannot take. -/
  | helpMisused
  | value (option : ValueOption) (given : Option String)
  | unknown
deriving DecidableEq, Repr

def longNames : List (String × Option ValueOption) :=
  [("--help", none), ("--output-dir", some .outputDirectory), ("--log-level", some .logLevel)]

def splitEquals (text : List Char) : List Char × Option (List Char) :=
  match text.dropWhile (· ≠ '=') with
  | [] => (text, none)
  | _ :: given => (text.takeWhile (· ≠ '='), some given)

def longToken (option : Option ValueOption) (given : Option (List Char)) : Token :=
  match option with
  | some option => .value option (given.map String.ofList)
  | none => if given.isSome then .helpMisused else .help

/-- An argument that starts with two dashes. A full name wins over the names it could shorten, and
several possible names are a refusal. -/
def longArgument (text : List Char) : Except Refusal Token :=
  let (name, given) := splitEquals text
  match longNames.filter (·.1.toList == name), longNames.filter (name.isPrefixOf ·.1.toList) with
  | (_, option) :: _, _ => .ok (longToken option given)
  | [], [(_, option)] => .ok (longToken option given)
  | [], [] => .ok (if text.contains ' ' then .word (String.ofList text) else .unknown)
  | [], _ => .error .usage

/-- Letters joined to `-h`: further requests for help, or one letter that is no option and ends the
reading. -/
def joinedToHelp : List Char → Token
  | [] => .help
  | 'h' :: '=' :: _ => .helpMisused
  | 'h' :: rest => joinedToHelp rest
  | '-' :: _ => .helpMisused
  | _ => .help

/-- Digits with at most one point, the point not being the last; a line feed may end it. -/
def isNumeral (text : List Char) : Bool :=
  let text := if text.getLast? = some '\n' then text.dropLast else text
  let whole := text.takeWhile Text.isDecimalDigit
  match text.drop whole.length with
  | [] => !whole.isEmpty
  | '.' :: fraction => !fraction.isEmpty && fraction.all Text.isDecimalDigit
  | _ => false

def token (argument : String) : Except Refusal Token :=
  match argument.toList with
  | ['-'] => .ok (.word argument)
  | '-' :: '-' :: text => longArgument ('-' :: '-' :: text)
  | '-' :: 'h' :: '=' :: _ => .ok .helpMisused
  | '-' :: 'h' :: rest => .ok (joinedToHelp rest)
  | '-' :: text =>
    .ok (if isNumeral text || text.contains ' ' then .word argument else .unknown)
  | _ => .ok (.word argument)

def tokens : List String → Except Refusal (List Token)
  | [] => .ok []
  | argument :: rest =>
    if argument = "--" then .ok (.separator :: rest.map .word)
    else do return (← token argument) :: (← tokens rest)

structure Reading where
  projectPath : Option String := none
  outputDirectory : Option String := none
  logLevel : Option String := none
  surplus : Bool := false

def Reading.set (r : Reading) (option : ValueOption) (value : String) : Reading :=
  match option with
  | .outputDirectory => { r with outputDirectory := some value }
  | .logLevel => { r with logLevel := some value }

/-- Reads tokens in order. The first word is the project path; a separator belongs to the path when it
stands beside it, and is surplus otherwise. -/
def readTokens : List Token → Reading → Except Refusal Reading
  | [], r => .ok r
  | .help :: _, _ => .error .help
  | .helpMisused :: _, _ => .error .usage
  | .unknown :: rest, r => readTokens rest { r with surplus := true }
  | .value option (some given) :: rest, r => readTokens rest (r.set option given)
  | .value option none :: .word text :: rest, r => readTokens rest (r.set option text)
  | .value _ none :: _, _ => .error .usage
  | .word text :: .separator :: rest, r =>
    if r.projectPath.isNone then readTokens rest { r with projectPath := some text }
    else readTokens rest { r with surplus := true }
  | .word text :: rest, r =>
    if r.projectPath.isNone then readTokens rest { r with projectPath := some text }
    else readTokens rest { r with surplus := true }
  | .separator :: .word text :: rest, r =>
    if r.projectPath.isNone then readTokens rest { r with projectPath := some text }
    else readTokens rest { r with surplus := true }
  | .separator :: rest, r => readTokens rest { r with surplus := true }

def arguments (texts : List String) : Except Refusal Arguments := do
  let r ← readTokens (← tokens texts) {}
  match r.projectPath, r.surplus with
  | some path, false => return ⟨path, r.outputDirectory, r.logLevel⟩
  | _, _ => throw .usage

end WebAtlas.CommandLine
