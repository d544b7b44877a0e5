import WebAtlas.Text.Scan

/-! # Files of variable assignments

Each line assigns a value to a name. Names and values may be quoted, quoted values may span lines
and hold escapes, an unquoted value ends before a blank and a `#`, and `export` may stand in front.
A line that cannot be read is passed over. Values then have `${name}` and `${name:-default}`
replaced by what is known so far.
-/
namespace WebAtlas.EnvFile

/-- A name and its value; a name may stand without one. -/
abbrev Assignment := String × Option String

def skipInline (text : List Char) : List Char := text.dropWhile Text.isInlineBlank

def isLineEnd (c : Char) : Bool := c == '\n' || c == '\r'

def afterExport (text : List Char) : List Char :=
  match Text.afterWord "export".toList text with
  | some (c :: rest) => if Text.isInlineBlank c then skipInline rest else text
  | _ => text

/-- The text up to a closing quote. An escaped quote closes only when no other does. -/
def upToQuote (quote : Char) : List Char → Option (List Char × List Char)
  | [] => none
  | '\\' :: c :: rest =>
    if c = quote then
      match upToQuote quote rest with
      | some (value, after) => some ('\\' :: c :: value, after)
      | none => some (['\\'], rest)
    else (upToQuote quote (c :: rest)).map fun (value, after) => ('\\' :: value, after)
  | c :: rest =>
    if c = quote then some ([], rest)
    else (upToQuote quote rest).map fun (value, after) => (c :: value, after)

/-- Escapes inside double quotes; inside single quotes only the first two are known. -/
def escapes : List (Char × Char) :=
  [('\\', '\\'), ('\'', '\''), ('"', '"'), ('a', '\x07'), ('b', '\x08'), ('f', '\x0c'), ('n', '\n'),
   ('r', '\r'), ('t', '\t'), ('v', '\x0b')]

def unescape (known : List (Char × Char)) : List Char → List Char
  | [] => []
  | '\\' :: c :: rest =>
    match known.lookup c with
    | some value => value :: unescape known rest
    | none => '\\' :: unescape known (c :: rest)
  | c :: rest => c :: unescape known rest

def withoutRemark : List Char → List Char
  | [] => []
  | c :: rest =>
    if Text.isBlank c && (Text.skipBlanks rest).head? == some '#' then [] else c :: withoutRemark rest

def unquoted (text : List Char) : List Char :=
  ((withoutRemark text).reverse.dropWhile Text.isBlank).reverse

def value (text : List Char) : Option (List Char × List Char) :=
  match text with
  | '\'' :: rest => (upToQuote '\'' rest).map fun (v, after) => (unescape (escapes.take 2) v, after)
  | '"' :: rest => (upToQuote '"' rest).map fun (v, after) => (unescape escapes v, after)
  | _ => some (unquoted (text.takeWhile (!isLineEnd ·)), text.dropWhile (!isLineEnd ·))

/-- A name and what follows it; a remark stands where there is none. -/
def name (text : List Char) : Option (Option (List Char) × List Char) :=
  match text with
  | '#' :: _ => some (none, text)
  | '\'' :: rest => do
    let (key, after) ← Text.run (· ≠ '\'') rest
    return (some key, ← Text.afterWord ['\''] after)
  | _ =>
    (Text.run (fun c => c != '=' && c != '#' && !Text.isBlank c) text).map fun (key, after) =>
      (some key, after)

def afterLineEnd (text : List Char) : Option (List Char) :=
  let text := match skipInline text with
    | '#' :: rest => rest.dropWhile (!isLineEnd ·)
    | rest => rest
  match text with
  | [] => some []
  | '\r' :: '\n' :: rest => some rest
  | c :: rest => if isLineEnd c then some rest else none

def afterLine (text : List Char) : List Char := (text.dropWhile (!isLineEnd ·)).drop 1

def assignment (text : List Char) : Option Assignment × List Char :=
  let text := afterExport (Text.skipBlanks text)
  match name text with
  | none => (none, afterLine text)
  | some (key, text) =>
    let (given, text) := match skipInline text with
      | '=' :: rest =>
        match value (skipInline rest) with
        | some (v, after) => (some (some v), some after)
        | none => (none, some (afterLine (skipInline rest)))
      | rest => (some none, some rest)
    match given, text with
    | some v, some text =>
      match afterLineEnd text with
      | some rest => (key.map fun k => (String.ofList k, v.map String.ofList), rest)
      | none => (none, afterLine (skipInline text))
    | _, text => (none, text.getD [])

def assignmentsUpTo : Nat → List Char → List Assignment
  | 0, _ => []
  | count + 1, text =>
    if (Text.skipBlanks text).isEmpty then []
    else
      let (found, rest) := assignment text
      found.toList ++ assignmentsUpTo count rest

def assignments (text : List Char) : List Assignment := assignmentsUpTo text.length text

def reference (text : List Char) : Option ((List Char × List Char) × List Char) := do
  let text ← Text.afterWord ['$', '\x7b'] text
  let name := text.takeWhile fun c => c != '\x7d' && c != ':'
  match text.drop name.length with
  | ':' :: '-' :: rest =>
    let default := rest.takeWhile (· ≠ '\x7d')
    return ((name, default), ← Text.afterWord ['\x7d'] (rest.drop default.length))
  | '\x7d' :: rest => return ((name, []), rest)
  | _ => none

/-- Replaces references; `skip` counts the characters ahead that the last one still covers. -/
def interpolate (known : String → Option (Option String)) : Nat → List Char → List Char
  | _, [] => []
  | skip + 1, _ :: text => interpolate known skip text
  | 0, c :: text =>
    match reference (c :: text) with
    | some ((name, default), rest) =>
      let replaced := match known (String.ofList name) with
        | some v => (v.getD "").toList
        | none => default
      replaced ++ interpolate known (text.length - rest.length) text
    | none => c :: interpolate known 0 text

def set (assigned : List Assignment) (a : Assignment) : List Assignment :=
  if assigned.any (·.1 == a.1) then assigned.map fun b => if b.1 == a.1 then a else b
  else assigned ++ [a]

/-- The values of a file's names once references are replaced, those to earlier names of the file
before those to the environment. -/
def resolved (environment : List (String × String)) (text : List Char) : List Assignment :=
  (assignments text).foldl (fun assigned (name, v) =>
    let known := fun n =>
      match assigned.lookup n with
      | some v => some v
      | none => (environment.lookup n).map some
    set assigned (name, v.map fun v => String.ofList (interpolate known 0 v.toList))) []

end WebAtlas.EnvFile
