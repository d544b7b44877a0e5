import WebAtlas.Text.Scan

/-! # HTTP methods of a route handler

A handler offers a method by exporting a function or a constant of the method's name. Blanks between
the words may be of any kind and number.
-/
namespace WebAtlas

inductive HttpMethod
  | get
  | post
  | put
  | delete
  | patch
deriving DecidableEq, Repr

namespace HttpMethod

def all : List HttpMethod := [.get, .post, .put, .delete, .patch]

def name : HttpMethod → String
  | .get => "GET"
  | .post => "POST"
  | .put => "PUT"
  | .delete => "DELETE"
  | .patch => "PATCH"

def ofName? (name : String) : Option HttpMethod := all.find? (·.name == name)

/-- `export`, perhaps `async`, `function`, the method and an opening parenthesis. -/
def functionExportStarts (m : HttpMethod) (text : List Char) : Bool :=
  let rest := do
    let text ← Text.afterBlanks (← Text.afterWord "export".toList text)
    let text := ((Text.afterWord "async".toList text).bind Text.afterBlanks).getD text
    let text ← Text.afterBlanks (← Text.afterWord "function".toList text)
    let text ← Text.afterWord m.name.toList text
    Text.afterWord ['('] (Text.skipBlanks text)
  rest.isSome

/-- `export`, `const`, the method and an equals sign. -/
def constantExportStarts (m : HttpMethod) (text : List Char) : Bool :=
  let rest := do
    let text ← Text.afterBlanks (← Text.afterWord "export".toList text)
    let text ← Text.afterBlanks (← Text.afterWord "const".toList text)
    let text ← Text.afterWord m.name.toList text
    Text.afterWord ['='] (Text.skipBlanks text)
  rest.isSome

def exportsFunction (m : HttpMethod) (text : String) : Bool :=
  Text.somewhere m.functionExportStarts text.toList

def exportsConstant (m : HttpMethod) (text : String) : Bool :=
  Text.somewhere m.constantExportStarts text.toList

def detect (text : String) : List HttpMethod :=
  all.filter fun m => m.exportsFunction text || m.exportsConstant text

end HttpMethod

end WebAtlas
