import WebAtlas.Json.Basic
import WebAtlas.Text.Quoted

/-! # Writing JSON

The layout of the files that a scan writes: one item or member a line, two spaces for each level,
empty containers closed at once, and only quotes, backslashes and controls escaped.
-/
namespace WebAtlas.Json

def escape (c : Char) : List Char :=
  if c = '"' then ['\\', '"']
  else if c = '\\' then ['\\', '\\']
  else if c = '\n' then ['\\', 'n']
  else if c = '\r' then ['\\', 'r']
  else if c = '\t' then ['\\', 't']
  else if c = '\x08' then ['\\', 'b']
  else if c = '\x0c' then ['\\', 'f']
  else if c.toNat < 0x20 then '\\' :: 'u' :: Text.hexDigits 4 c.toNat
  else [c]

def quote (text : String) : List Char := '"' :: text.toList.flatMap escape ++ ['"']

def lineStart (level : Nat) : List Char := '\n' :: List.replicate (2 * level) ' '

mutual

/-- A value whose first character stands on a line of the given level. -/
def renderAt (level : Nat) : Json → List Char
  | .null => "null".toList
  | .bool value => (if value then "true" else "false").toList
  | .int value => (toString value).toList
  | .decimal literal => literal.toList
  | .string value => quote value
  | .array [] => "[]".toList
  | .array (item :: items) =>
    '[' :: (lineStart (level + 1) ++ renderAt (level + 1) item ++ renderItems (level + 1) items ++
      lineStart level ++ [']'])
  | .object [] => ['{', '}']
  | .object ((name, value) :: members) =>
    '{' :: (lineStart (level + 1) ++ quote name ++ [':', ' '] ++ renderAt (level + 1) value ++
      renderMembers (level + 1) members ++ lineStart level ++ ['}'])

def renderItems (level : Nat) : List Json → List Char
  | [] => []
  | item :: items => ',' :: (lineStart level ++ renderAt level item ++ renderItems level items)

def renderMembers (level : Nat) : List (String × Json) → List Char
  | [] => []
  | (name, value) :: members =>
    ',' :: (lineStart level ++ quote name ++ [':', ' '] ++ renderAt level value ++
      renderMembers level members)

end

def render (value : Json) : String := String.ofList (renderAt 0 value)

end WebAtlas.Json
