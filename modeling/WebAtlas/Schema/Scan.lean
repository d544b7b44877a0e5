import WebAtlas.Schema.Declaration
import WebAtlas.Schema.Relationship
import WebAtlas.Project.Root

/-! # Scanning for a schema

The first conventional schema file that exists is the one that is read.
-/
namespace WebAtlas

structure SchemaReport where
  entities : List Schema.Entity
  relationships : List Schema.Relationship
  schemaFile : String
  projectPath : String
  generatedAt : String
deriving DecidableEq, Repr

namespace Schema

/-- Where a schema file may lie, from the project root, in the order of choice. -/
def places : List (List String) :=
  [["prisma", "schema.prisma"], ["schema.prisma"], ["prisma", "schema", "schema.prisma"]]

def file? (fs : FileSystem) (root : Path) : Except FileError (Option Path) :=
  fs.firstFile? (places.map root.descend)

/-- The report on a schema file with this text. -/
def reportOn (keywords : List String) (stamp : String) (fs : FileSystem) (root file : Path)
    (text : String) : SchemaReport :=
  let entities := parse keywords text
  ⟨entities, relationships entities, Source.relativeName fs root file, root.text, stamp⟩

def scan (fs : FileSystem) (keywords : List String) (stamp : String) (project : Path) :
    Reporting Fault (Option SchemaReport) := do
  let root ← Project.root fs project
  match file? fs root with
  | .error e => throw (.file e)
  | .ok none => return none
  | .ok (some file) => return (Source.read? fs file).map (reportOn keywords stamp fs root file)

end Schema

end WebAtlas
