import WebAtlas.Proofs.Graph.Build
import WebAtlas.Proofs.Project.Analysis

/-! # The dates of an analysis

The time of a run is written into every report and read by nothing. So the analyses of one project at
two times differ in their dates alone.
-/
namespace WebAtlas
variable {fs : FileSystem} {room : Nat} {settings : Settings} {project : Path}

def RouteReport.dated (stamp : String) (report : RouteReport) : RouteReport :=
  { report with generatedAt := stamp }

def ComponentReport.dated (stamp : String) (report : ComponentReport) : ComponentReport :=
  { report with generatedAt := stamp }

def SchemaReport.dated (stamp : String) (report : SchemaReport) : SchemaReport :=
  { report with generatedAt := stamp }

def ImportGraph.dated (stamp : String) (graph : ImportGraph) : ImportGraph :=
  { graph with generatedAt := stamp }

/-- An analysis with another date on it and on all of its parts. -/
def Analysis.dated {Name : Type} (stamp : String) (analysis : Analysis Name) : Analysis Name :=
  { analysis with
    generatedAt := stamp
    routes := analysis.routes.map (.dated stamp)
    components := analysis.components.map (.dated stamp)
    schema := analysis.schema.map (.dated stamp)
    graph := analysis.graph.map (.dated stamp) }

/-- What is made of the value of a pass has the date of the pass. -/
theorem map_dated {α β : Type} {date : β → β} {make make' : α → β} (h : ∀ a, date (make a) = make' a)
    (outcome : Except Fault α) : (outcome.map make).map date = outcome.map make' := by
  cases outcome with
  | error fault => rfl
  | ok a => exact congrArg Except.ok (h a)

theorem toOption_map {α β : Type} (f : α → β) (outcome : Except Fault α) :
    (outcome.map f).toOption = outcome.toOption.map f := by
  cases outcome <;> rfl

section Passes
variable (stamp stamp' : String)

theorem Route.scan_dated : (scan fs settings stamp project).outcome.1.map (.dated stamp') =
    (scan fs settings stamp' project).outcome.1 := by
  rw [scan_outcome, scan_outcome]
  cases fs.resolve project with
  | error fault => rfl
  | ok root => exact map_dated (fun _ => rfl) _

theorem Component.scan_dated (aliasPrefix : String) :
    (scan fs settings aliasPrefix stamp project).outcome.1.map (.dated stamp') =
      (scan fs settings aliasPrefix stamp' project).outcome.1 := by
  rw [scan, scan, scanUnder_outcome, scanUnder_outcome]
  cases fs.resolve project with
  | error fault => rfl
  | ok root => exact map_dated (fun _ => rfl) _

theorem Schema.scan_dated (keywords : List String) :
    (scan fs keywords stamp project).outcome.1.map (Option.map (.dated stamp')) =
      (scan fs keywords stamp' project).outcome.1 := by
  rw [scan_outcome, scan_outcome]
  cases fs.resolve project with
  | error fault => rfl
  | ok root =>
    dsimp only
    rcases file? fs root with e | _ | file
    · rfl
    · rfl
    · exact congrArg Except.ok (Option.map_map ..)

theorem Graph.build_dated (aliasPrefix : String) (maxFiles : Int) :
    (build fs settings aliasPrefix maxFiles stamp project).outcome.1.map (.dated stamp') =
      (build fs settings aliasPrefix maxFiles stamp' project).outcome.1 := by
  rw [build_outcome, build_outcome]
  cases fs.resolve project with
  | error fault => rfl
  | ok root =>
    dsimp only
    cases fs.resolve root with
    | error fault => rfl
    | ok start => exact map_dated (fun _ => rfl) _

end Passes

namespace Analysis
variable {options : Options} {stamp stamp' : String}

theorem run_dated (root : Path) :
    (run fs room settings options stamp root).outcome.1.map (.dated stamp') =
      (run fs room settings options stamp' root).outcome.1 := by
  cases hname : Project.name fs room root with
  | error fault => rw [run_outcome_error hname, run_outcome_error hname]; rfl
  | ok name =>
    rw [run_outcome hname, run_outcome hname]
    refine congrArg Except.ok ?_
    unfold dated
    congr 1
    · rw [← Route.scan_dated stamp stamp', toOption_map, Option.filter_map]
      rfl
    · rw [← Component.scan_dated stamp stamp', toOption_map, Option.filter_map]
      rfl
    · rw [← Schema.scan_dated stamp stamp', toOption_map, Option.join_map_eq_map_join, Option.filter_map]
      rfl
    · rw [← Graph.build_dated stamp stamp', toOption_map, Option.filter_map]
      rfl

/-- The analyses of one project at two times differ in their dates alone. -/
theorem ofPath_dated (path : Option String) :
    (ofPath fs room settings options stamp path).outcome.1.map (.dated stamp') =
      (ofPath fs room settings options stamp' path).outcome.1 := by
  unfold ofPath
  cases Project.validate fs path with
  | error fault => rfl
  | ok root => exact run_dated root

end Analysis
end WebAtlas
