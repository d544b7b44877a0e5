import WebAtlas.Schema.Basic
import WebAtlas.Text.Scan

/-! # Entity declarations

A declaration is an indent, a keyword, a name and a body in braces. It starts at the beginning of a
line or right after a closing brace or a semicolon, and its body ends at the next closing brace. The
first pass over a text reads only the names before opening braces, so that a field may refer to an
entity declared further down; the second reads whole blocks.
-/
namespace WebAtlas.Schema

/-- Where a declaration may start, given the character before. -/
def mayStart : Option Char → Bool
  | none => true
  | some c => c == '\n' || c == '}' || c == ';'

/-- Reads after an indent of spaces and tabs; the longest indent that lets `read` succeed counts. -/
def afterIndent {α : Type} (read : List Char → Option α) : List Char → Option α
  | [] => read []
  | c :: text =>
    if c = ' ' || c = '\t' then (afterIndent read text).or (read (c :: text)) else read (c :: text)

/-- The name and the rest of a declaration with one keyword, up to its opening brace. -/
def headerWith (keyword text : List Char) : Option (List Char × List Char) := do
  let text ← Text.afterBlanks (← Text.afterWord keyword text)
  let (name, text) ← Text.run Text.isWordChar text
  return (name, ← Text.afterWord ['{'] (Text.skipBlanks text))

/-- The keywords to look for; no keyword at all counts as an empty one. -/
def keywordTexts (keywords : List String) : List (List Char) :=
  if keywords.isEmpty then [[]] else keywords.map String.toList

def header (keywords : List String) : List Char → Option (List Char × List Char) :=
  afterIndent fun text => (keywordTexts keywords).findSome? (headerWith · text)

/-- A declaration with its body: name, body and what follows the closing brace. -/
def block (keywords : List String) : List Char → Option ((List Char × List Char) × List Char) :=
  afterIndent fun text => (keywordTexts keywords).findSome? fun keyword => do
    let (name, text) ← headerWith keyword text
    let rest ← Text.afterWord ['}'] (text.dropWhile (· ≠ '}'))
    return ((name, text.takeWhile (· ≠ '}')), rest)

def declaredNames (keywords : List String) (text : String) : List String :=
  ((Text.matchesFrom mayStart (header keywords) none 0 text.toList).map String.ofList).eraseDups

def withoutEnding? (ending text : List Char) : Option (List Char) :=
  (Text.afterWord ending.reverse text.reverse).map List.reverse

/-- Reads a field: a name and a type, which may end in `?` and then in `[]`. Comments, attributes of
the whole block and lines with fewer words are no fields. -/
def field? (entityNames : List String) (line : List Char) : Option Field :=
  let stripped := Text.trimBlanks line
  if (Text.afterWord ['/', '/'] stripped).isSome || (Text.afterWord ['@', '@'] stripped).isSome then none
  else match Text.words stripped with
    | name :: typeText :: _ =>
      if name.head? = some '@' then none
      else
        let array := withoutEnding? ['[', ']'] typeText
        let element := array.getD typeText
        let optional := withoutEnding? ['?'] element
        let typeName := String.ofList (optional.getD element)
        some ⟨String.ofList name, typeName, entityNames.contains typeName, optional.isSome, array.isSome⟩
    | _ => none

def bodyLines (body : List Char) : List (List Char) := body.splitOnP fun c => c == '\n' || c == ';'

def entitiesWith (keywords entityNames : List String) (text : String) : List Entity :=
  (Text.matchesFrom mayStart (block keywords) none 0 text.toList).map fun (name, body) =>
    ⟨String.ofList name, (bodyLines body).filterMap (field? entityNames)⟩

def parse (keywords : List String) (text : String) : List Entity :=
  entitiesWith keywords (declaredNames keywords text) text

end WebAtlas.Schema
