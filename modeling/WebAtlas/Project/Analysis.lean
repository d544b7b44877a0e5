import WebAtlas.Project.Root
import WebAtlas.Route.Scan
import WebAtlas.Component.Scan
import WebAtlas.Schema.Scan
import WebAtlas.Graph.Build

/-! # Analysis of a project

Four passes run over a project, none of them touched by another. A pass that fails is reported and
counts as having found nothing, and a pass that finds nothing is absent from the result.
-/
namespace WebAtlas

/-- What an analysis finds, with the project's name in one of the forms that a name has. -/
structure Analysis (Name : Type) where
  projectPath : String
  projectName : Name
  generatedAt : String
  routes : Option RouteReport
  components : Option ComponentReport
  schema : Option SchemaReport
  graph : Option ImportGraph
deriving DecidableEq, Repr

namespace Analysis

/-- The analysis with its name as a text, if the name is one. -/
def text? (a : Analysis CodePoints) : Option (Analysis String) :=
  a.projectName.text?.map fun name => { a with projectName := name }

structure Options where
  maxFiles : Option Int := none
  aliasPrefix : Option String := none

/-- Runs a pass on its own; its failure becomes a report. -/
def attempt {α : Type} (name : String) (pass : Reporting Fault α) : Reporting Fault (Option α) := do
  let (outcome, log) := pass.outcome
  Reporting.absorb log
  match outcome with
  | .ok value => return some value
  | .error fault =>
    Reporting.report .error "analyzer" s!"{name} pass failed: {fault.message}"
    return none

/-- The analysis of a validated project directory. The stack has room for documents that nest `room`
deep, and for the walks of the passes down to their depth limit. -/
def run (fs : FileSystem) (room : Nat) (settings : Settings) (options : Options) (stamp : String)
    (root : Path) : Reporting Fault (Analysis CodePoints) := do
  let aliasPrefix := options.aliasPrefix.getD settings.aliasPrefix
  let maxFiles := options.maxFiles.getD settings.maxFiles
  let routes ← attempt "routes" (Route.scan fs settings stamp root)
  let components ← attempt "components" (Component.scan fs settings aliasPrefix stamp root)
  let schema ← attempt "schema" (Schema.scan fs settings.entityKeywordList stamp root)
  let graph ← attempt "dependencies" (Graph.build fs settings aliasPrefix maxFiles stamp root)
  match Project.name fs room root with
  | .error fault => throw fault
  | .ok name =>
    return {
      projectPath := root.text
      projectName := name
      generatedAt := stamp
      routes := routes.filter (!·.routes.isEmpty)
      components := components.filter (!·.components.isEmpty)
      schema := schema.join.filter (!·.entities.isEmpty)
      graph := graph.filter (!·.nodes.isEmpty) }

def ofPath (fs : FileSystem) (room : Nat) (settings : Settings) (options : Options) (stamp : String)
    (path : Option String) : Reporting Fault (Analysis CodePoints) :=
  match Project.validate fs path with
  | .error fault => throw fault
  | .ok root => run fs room settings options stamp root

end Analysis

end WebAtlas
