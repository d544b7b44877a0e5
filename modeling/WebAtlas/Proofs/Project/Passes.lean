import WebAtlas.Proofs.Graph.Build
import WebAtlas.Proofs.Project.Analysis
import WebAtlas.Proofs.Walk.Roots

/-! # Passes that fail

A pass tells of its walks by warnings only. So the errors in the log of an analysis are those of the
passes that have failed, one for each, and every other pass gives what it gives alone.
-/
namespace WebAtlas
open FileSystem Reporting
variable {fs : FileSystem} {settings : Settings} {stamp : String}

def LogRecord.IsWarning (r : LogRecord) : Prop := r.severity = .warning

namespace Walk
variable {policy : WalkPolicy} {room : Nat} {accepts : Path → Bool} {root start : Path}

theorem adds_course : Adds LogRecord.IsWarning (course fs policy room start) := by
  unfold course
  split
  · exact adds_throw _
  · split
    · exact adds_pure _
    · exact adds_pure _

theorem adds_reportDepth (visit : Visit) : Adds LogRecord.IsWarning (reportDepth visit) := by
  cases visit with
  | file p => exact adds_pure ()
  | tooDeep dir => exact adds_report rfl

theorem adds_filesOn : Adds LogRecord.IsWarning (filesOn fs policy room accepts start) := by
  refine adds_course.bind fun course => (adds_forM adds_reportDepth _).bind fun _ => ?_
  cases course.overflows with
  | true => exact adds_throw _
  | false => exact adds_pure _

theorem adds_filesIfDirectory :
    Adds LogRecord.IsWarning (filesIfDirectory fs policy accepts start) := by
  unfold filesIfDirectory
  rcases fs.isDirectory? start with e | _ | _
  · exact adds_throw _
  · exact adds_pure _
  · exact adds_filesOn

theorem adds_filesBelow {starts : List (List String)} :
    Adds LogRecord.IsWarning (filesBelow fs policy accepts root starts) :=
  adds_foldlM (fun _ _ => adds_filesIfDirectory.bind fun _ => adds_pure _) starts []

theorem adds_sourcesOn {cap : Int} : Adds LogRecord.IsWarning (sourcesOn fs policy room cap start) := by
  refine adds_course.bind fun course => ?_
  rcases beforeCap cap 0 course.visits with ⟨before,capped⟩
  refine (adds_forM adds_reportDepth before).bind fun _ => ?_
  have hwarn : Adds LogRecord.IsWarning (Reporting.report .warning component
      s!"File cap of {cap} reached, remaining files are not scanned" : Reporting Fault Unit) :=
    adds_report rfl
  cases capped with
  | true => exact hwarn.bind fun _ => adds_pure _
  | false =>
    cases course.overflows with
    | true => exact adds_throw _
    | false => exact adds_pure _

end Walk

section Passes
variable {project : Path}

theorem Project.adds_root : Adds LogRecord.IsWarning (Project.root fs project) := by
  unfold Project.root
  cases fs.resolve project with
  | error fault => exact adds_throw _
  | ok real => exact adds_pure real

theorem Route.adds_scan : Adds LogRecord.IsWarning (scan fs settings stamp project) :=
  Project.adds_root.bind fun _ => Walk.adds_filesBelow.bind fun _ => adds_pure _

theorem Component.adds_scan {aliasPrefix : String} :
    Adds LogRecord.IsWarning (scan fs settings aliasPrefix stamp project) :=
  Project.adds_root.bind fun _ => Walk.adds_filesBelow.bind fun _ => adds_pure _

theorem Schema.adds_scan {keywords : List String} :
    Adds LogRecord.IsWarning (scan fs keywords stamp project) := by
  refine Project.adds_root.bind fun root => ?_
  rcases file? fs root with e | _ | file
  · exact adds_throw _
  · exact adds_pure _
  · exact adds_pure _

theorem Graph.adds_build {aliasPrefix : String} {maxFiles : Int} :
    Adds LogRecord.IsWarning (build fs settings aliasPrefix maxFiles stamp project) :=
  Project.adds_root.bind fun _ => Project.adds_root.bind fun _ =>
    Walk.adds_sourcesOn.bind fun _ => adds_pure _

end Passes

namespace Analysis
variable {room : Nat} {options : Options} {root : Path} {name : CodePoints}

/-- A part of an analysis is the report that its pass gives when it is run alone, unless the pass fails
or there is nothing in its report. -/
structure IsPart {γ α β : Type} (report? : γ → Option α) (records : α → List β)
    (alone : Except Fault γ) (part : Option α) : Prop where
  present_iff : ∀ report, part = some report ↔
    ∃ value, alone = .ok value ∧ report? value = some report ∧ records report ≠ []
  absent_iff : part = none ↔ (∃ fault, alone = .error fault) ∨
    ∃ value, alone = .ok value ∧ ∀ report, report? value = some report → records report = []

theorem isPart_filter {γ α β : Type} (report? : γ → Option α) (records : α → List β)
    (alone : Except Fault γ) :
    IsPart report? records alone
      ((alone.toOption.bind report?).filter fun report => !(records report).isEmpty) := by
  cases alone with
  | error fault => exact ⟨by simp [Except.toOption],by simp [Except.toOption]⟩
  | ok value =>
    constructor
    · intro report
      simp [Except.toOption, Option.filter_eq_some_iff]
    · simp [Except.toOption, Option.filter_eq_none_iff]

/-- The records of an analysis are those of the passes, each followed by that of its failure. -/
theorem run_log (hname : Project.name fs room root = .ok name) :
    (run fs room settings options stamp root).outcome.2 =
      (let aliasPrefix := options.aliasPrefix.getD settings.aliasPrefix
      let routes := (Route.scan fs settings stamp root).outcome
      let components := (Component.scan fs settings aliasPrefix stamp root).outcome
      let schema := (Schema.scan fs settings.entityKeywordList stamp root).outcome
      let graph := (Graph.build fs settings aliasPrefix (options.maxFiles.getD settings.maxFiles)
        stamp root).outcome
      routes.2 ++ failureLog "routes" routes.1 ++ components.2 ++
        failureLog "components" components.1 ++ schema.2 ++ failureLog "schema" schema.1 ++
        graph.2 ++ failureLog "dependencies" graph.1) := by
  unfold run Reporting.outcome
  simp only [Reporting.run_bind, run_attempt, hname]
  rfl

def errors (log : Log) : Log := log.filter (·.severity = .error)

theorem errors_append (log log' : Log) : errors (log ++ log') = errors log ++ errors log' :=
  List.filter_append ..

theorem errors_of_adds {α : Type} {pass : Reporting Fault α} (h : Adds LogRecord.IsWarning pass) :
    errors pass.outcome.2 = [] := by
  refine List.filter_eq_nil_iff.mpr fun r hr => ?_
  have hwarning : r.severity = .warning := h.outcome r hr
  simp [hwarning]

theorem errors_failureLog {α : Type} (name : String) (alone : Except Fault α) :
    errors (failureLog name alone) = failureLog name alone := by
  cases alone <;> rfl

/-- Whatever passes fail, an analysis is put together from what each of them gives alone, and the errors
it logs are one for each pass that has failed. -/
theorem passes_merge {text : String} (hroot : Project.validate fs (some text) = .ok root)
    (hname : Project.name fs room root = .ok name) :
    let aliasPrefix := options.aliasPrefix.getD settings.aliasPrefix
    let routes := (Route.scan fs settings stamp root).outcome.1
    let components := (Component.scan fs settings aliasPrefix stamp root).outcome.1
    let schema := (Schema.scan fs settings.entityKeywordList stamp root).outcome.1
    let graph := (Graph.build fs settings aliasPrefix (options.maxFiles.getD settings.maxFiles) stamp
      root).outcome.1
    ∃ analysis log, (ofPath fs room settings options stamp (some text)).outcome = (.ok analysis,log) ∧
      analysis.projectPath = root.text ∧ analysis.projectName = name ∧ analysis.generatedAt = stamp ∧
      IsPart some RouteReport.routes routes analysis.routes ∧
      IsPart some ComponentReport.components components analysis.components ∧
      IsPart id SchemaReport.entities schema analysis.schema ∧
      IsPart some ImportGraph.nodes graph analysis.graph ∧
      errors log = failureLog "routes" routes ++ failureLog "components" components ++
        failureLog "schema" schema ++ failureLog "dependencies" graph := by
  intro aliasPrefix routes components schema graph
  have hpath : ofPath fs room settings options stamp (some text) = run fs room settings options stamp root := by
    unfold ofPath
    rw [hroot]
  have hrun := @run_outcome fs room settings stamp root options name hname
  have hlog := @run_log fs settings stamp room options root name hname
  refine ⟨_,_,by rw [hpath]; exact Prod.ext hrun rfl,rfl,rfl,rfl,?_,?_,?_,?_,?_⟩
  · have h := isPart_filter some RouteReport.routes routes
    rwa [Option.bind_fun_some] at h
  · have h := isPart_filter some ComponentReport.components components
    rwa [Option.bind_fun_some] at h
  · have h := isPart_filter id SchemaReport.entities schema
    rwa [Option.bind_id_eq_join] at h
  · have h := isPart_filter some ImportGraph.nodes graph
    rwa [Option.bind_fun_some] at h
  · refine (congrArg errors hlog).trans ?_
    simp only [errors_append, errors_of_adds Route.adds_scan, errors_of_adds Component.adds_scan,
      errors_of_adds Schema.adds_scan, errors_of_adds Graph.adds_build, errors_failureLog,
      List.nil_append, List.append_nil]
    rfl

/-- A project `p` with a source file, whose schema directory is a link to a name that is too long. -/
def tangled : FileSystem where
  entries := [(["p"],.directory), (["p","a.ts"],.file []), (["p","prisma"],.link overlong)]
  workingDirectory := []

/-- Nothing is found through that link. -/
theorem tangled_status (rest : Location) :
    tangled.status (Path.mk .root ("p" :: "prisma" :: rest)) = .error .nameTooLong := by
  have hp : tangled.IsReal ["p"] := isReal_nil.snoc (by decide) rfl
  have hlink : tangled.entry? (["p"] ++ ["prisma"]) = some (.link overlong) := rfl
  exact @status_of_overlong_link tangled ["p"] rest "prisma" overlong overlong hp (by decide) hlink
    pieces_overlong unfit_overlong

theorem tangled_schema : (Schema.scan tangled ({} : Settings).entityKeywordList "" (Path.mk .root ["p"])
    ).outcome.1 = .error (.file ⟨.nameTooLong,Path.mk .root ["p","prisma","schema.prisma"]⟩) := by
  have htest : tangled.isFile? ((Path.mk .root ["p"]).descend ["prisma","schema.prisma"]) =
      .error ⟨.nameTooLong,Path.mk .root ["p","prisma","schema.prisma"]⟩ :=
    test_of_not_clear (not_clear_iff.mpr ⟨tangled_status ["schema.prisma"],by decide⟩)
  have hfile : Schema.file? tangled (Path.mk .root ["p"]) =
      .error ⟨.nameTooLong,Path.mk .root ["p","prisma","schema.prisma"]⟩ := by
    rw [Schema.file?, Schema.places, List.map_cons, firstFile?]
    simp only [htest]
  exact Schema.scan_of_refused rfl hfile

theorem tangled_contents : tangled.contents (Path.mk .root ["p"]) ["p"] = [("a.ts",.file [])] := by
  have hlink : tangled.target? ((Path.mk .root ["p"]).child "prisma") (.link overlong) = none := by
    rw [target?, Path.child, show (["p"] : Location) ++ ["prisma"] = ["p","prisma"] from rfl,
      tangled_status]
    rfl
  exact contents_of_lost rfl (by decide) rfl hlink

/-- The source file is found although the schema pass fails, and its failure is the one error. -/
theorem passes_merge_tangled :
    Project.validate tangled (some "/p") = .ok (Path.mk .root ["p"]) ∧
    Project.name tangled 900 (Path.mk .root ["p"]) = .ok "p" ∧
    ∃ analysis log graph, (ofPath tangled 900 {} {} "" (some "/p")).outcome = (.ok analysis,log) ∧
      analysis.schema = none ∧
      (Graph.build tangled {} "@/" 500 "" (Path.mk .root ["p"])).outcome.1 = .ok graph ∧
      analysis.graph = some graph ∧
      errors log = [⟨.error,"analyzer","schema pass failed: [Errno 36] File name too long: " ++
        "'/p/prisma/schema.prisma'"⟩] := by
  have hroot : Project.validate tangled (some "/p") = .ok (Path.mk .root ["p"]) := rfl
  have hname : Project.name tangled 900 (Path.mk .root ["p"]) = .ok "p" := rfl
  have hresolve : tangled.resolve (Path.mk .root ["p"]) = .ok (Path.mk .root ["p"]) := rfl
  have hroutes : ∃ report, (Route.scan tangled {} "" (Path.mk .root ["p"])).outcome.1 = .ok report := by
    rw [Route.scan_outcome, hresolve]
    exact ⟨_,rfl⟩
  have hcomponents : ∃ report,
      (Component.scan tangled {} "@/" "" (Path.mk .root ["p"])).outcome.1 = .ok report := by
    rw [Component.scan, Component.scanUnder_outcome, hresolve]
    exact ⟨_,rfl⟩
  have hwalk : tangled.walk ({} : Settings).walkPolicy (Path.mk .root ["p"]) =
      .ok [.file (Path.mk .root ["p","a.ts"])] := by
    have hstatus : tangled.status (Path.mk .root ["p"]) = .ok (["p"],.directory) := rfl
    have hlevels : levelsOf ({} : Settings).walkPolicy.maxDepth = 64 + 1 := rfl
    rw [walk_eq hstatus, hlevels, visit_enter hstatus List.not_mem_nil, ownFiles, ownDirectories,
      tangled_contents]
    rfl
  obtain ⟨graph,hgraph,hnodes⟩ : ∃ graph,
      (Graph.build tangled {} "@/" 500 "" (Path.mk .root ["p"])).outcome.1 = .ok graph ∧
      graph.nodes ≠ [] := by
    rw [Graph.build_outcome, hresolve]
    dsimp only
    rw [hresolve]
    dsimp only
    rw [Walk.sources_outcome hwalk, Walk.beforeCap_sources]
    exact ⟨_,rfl,by decide⟩
  obtain ⟨analysis,log,houtcome,-,-,-,-,-,hschema,hpart,herrors⟩ :=
    @passes_merge tangled {} "" 900 {} _ _ "/p" hroot hname
  have hschema' := hschema.absent_iff.mpr (.inl ⟨_,tangled_schema⟩)
  have hgraph' := (hpart.present_iff graph).mpr ⟨graph,hgraph,rfl,hnodes⟩
  refine ⟨hroot,hname,analysis,log,graph,houtcome,hschema',hgraph,hgraph',?_⟩
  obtain ⟨routes,hroutes⟩ := hroutes
  obtain ⟨components,hcomponents⟩ := hcomponents
  have halias : ({} : Analysis.Options).aliasPrefix.getD ({} : Settings).aliasPrefix = "@/" := rfl
  have hcap : ({} : Analysis.Options).maxFiles.getD ({} : Settings).maxFiles = 500 := rfl
  rw [halias, hcap, hroutes, hcomponents, tangled_schema, hgraph] at herrors
  exact herrors

end Analysis
end WebAtlas
