import WebAtlas.Text.CodePoints

/-! # JSON values

Objects keep the order of their members and may repeat a name; the last member of a name is the one
that counts. Numbers that are no integers keep their written form. A value to be written has texts for
its strings, and one that is read may have others.
-/
namespace WebAtlas

inductive Json
  | null
  | bool (value : Bool)
  | int (value : Int)
  | decimal (literal : String)
  | string (value : String)
  | array (items : List Json)
  | object (members : List (String × Json))

namespace Json

/-- The value of the last member of an object with a name. -/
def member? (name : String) : Json → Option Json
  | .object members => (members.reverse.find? (·.1 == name)).map (·.2)
  | _ => none

def strings (values : List String) : Json := .array (values.map .string)

def ofOption {α : Type} (encode : α → Json) : Option α → Json
  | none => .null
  | some value => encode value

end Json

/-- A value that is read from a document. -/
inductive Parsed
  | null
  | bool (value : Bool)
  | int (value : Int)
  | decimal (literal : String)
  | string (value : CodePoints)
  | array (items : List Parsed)
  | object (members : List (CodePoints × Parsed))

namespace Parsed

def member? (name : CodePoints) : Parsed → Option Parsed
  | .object members => (members.reverse.find? (·.1 == name)).map (·.2)
  | _ => none

def string? : Parsed → Option CodePoints
  | .string value => some value
  | _ => none

end Parsed

end WebAtlas
