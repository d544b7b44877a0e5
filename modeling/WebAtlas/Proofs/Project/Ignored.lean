import WebAtlas.Proofs.Component.Scan
import WebAtlas.Proofs.Graph.Build
import WebAtlas.Proofs.Walk.Evaluation

/-! # Ignored directories

A walk enters no directory with an ignored name, but it does not ask for the name of the directory it
starts from. The graph starts from the project itself, so none of its nodes lies in an ignored
directory below it. Components are looked for from the component roots, whatever their names.
-/
namespace WebAtlas
open FileSystem
variable {fs : FileSystem} {policy : WalkPolicy} {settings : Settings} {aliasPrefix stamp : String}
  {project root : Path}

/-- No name on the way to a directory is ignored. -/
def WalkPolicy.Spares (policy : WalkPolicy) (dir : Path) : Prop :=
  ∀ name ∈ dir.segments, name ∉ policy.ignored

instance {dir : Path} : Decidable (policy.Spares dir) :=
  inferInstanceAs (Decidable (∀ name ∈ dir.segments, name ∉ policy.ignored))

/-- No name in the component root that a directory lies below is ignored. -/
def Component.RootSpared (policy : WalkPolicy) (dir : Path) : Prop :=
  ∀ segments ∈ roots, segments <+: dir.segments → ∀ name ∈ segments, name ∉ policy.ignored

instance {dir : Path} : Decidable (Component.RootSpared policy dir) :=
  inferInstanceAs (Decidable (∀ segments ∈ Component.roots, segments <+: dir.segments →
    ∀ name ∈ segments, name ∉ policy.ignored))

/-- A directory, as records show it from `root`, below `start` by names that are not ignored. -/
def WalkPolicy.SparesBelow (policy : WalkPolicy) (fs : FileSystem) (root start : Path)
    (directory : String) : Prop :=
  ∃ names name, (∀ n ∈ names, n ∉ policy.ignored) ∧
    directory = (Path.parse (Source.relativeName fs root (start.descend (names ++ [name])))).parent.text

theorem Path.parse_parent_plain {names : List String} {name : String} (h : Plain (names ++ [name])) :
    parse (parse ("/".intercalate (names ++ [name]))).parent.text = ⟨.relative,names⟩ := by
  rw [parse_plain h, parent, List.dropLast_concat]
  by_cases hn : names = []
  · subst hn
    have hempty : parse (Path.mk .relative []).text = ⟨.relative,[]⟩ := by decide
    exact hempty
  · rw [text_relative hn, parse_plain (h.mono (List.subset_append_left names [name]))]

theorem Component.spares_iff {segments names : List String} (hs : segments ∈ roots)
    (hn : ∀ name ∈ names, name ∉ policy.ignored) :
    policy.Spares ⟨.relative,segments ++ names⟩ ↔ RootSpared policy ⟨.relative,segments ++ names⟩ := by
  constructor
  · intro h other _ hbelow s hmem
    exact h s (hbelow.subset hmem)
  · intro h
    exact List.forall_mem_append.mpr ⟨h segments hs (List.prefix_append _ _),hn⟩

section Found
variable (hfs : fs.WellFormed) (hslash : fs.Slashless)
include hfs hslash

/-- Every node stands for a file below the directory that the walk starts from, which is the project
unless its real path is another path's, and no directory between them is ignored. -/
theorem Graph.build_spares {maxFiles : Int} {graph : ImportGraph}
    (h : (build fs settings aliasPrefix maxFiles stamp project).outcome.1 = .ok graph) :
    ∃ root start, fs.resolve project = .ok root ∧ fs.resolve root = .ok start ∧
      ∀ n ∈ graph.nodes, settings.walkPolicy.SparesBelow fs root start n.directory ∧
        (start = root → settings.walkPolicy.Spares (Path.parse n.directory)) := by
  obtain ⟨root,start,files,hroot,hstart,hfiles,rfl⟩ := build_eq_ok_iff.mp (Prod.ext h rfl)
  refine ⟨root,start,hroot,hstart,?_⟩
  intro n hn
  obtain ⟨placed,hplaced,rfl⟩ := List.mem_map.mp hn
  obtain ⟨file,hfile,-,hnode⟩ := mem_placeFrom ((place_files_nodup files).2 placed hplaced)
  obtain ⟨names,name,rfl,hplain,hspared⟩ :=
    hfs.filesUnder_spared hslash (sources_subset hfiles hfile)
  have hdirectory := congrArg Node.directory hnode
  refine ⟨⟨names,name,hspared,hdirectory⟩,?_⟩
  rintro rfl
  have hrelative := @Source.relativeName_descend fs start _ (resolve_isAbsolute hroot)
    (resolve_ne_dotdot hroot) hplain (by simp)
  rw [hdirectory, nodeOf, hrelative, Path.parse_parent_plain hplain]
  exact hspared

namespace Component

/-- A component lies below one of the component roots, its further directories not ignored. -/
theorem discovered_named (hroot : fs.resolve project = .ok root) {component : Component}
    (h : component ∈ discovered fs policy aliasPrefix root) : ∃ segments ∈ roots, ∃ names,
      (Path.parse component.path).parent = ⟨.relative,segments ++ names⟩ ∧
      Path.parse component.directory = ⟨.relative,segments ++ names⟩ ∧
      ∀ name ∈ names, name ∉ policy.ignored := by
  obtain ⟨segments,names,fileName,text,hyields,rfl⟩ := (mem_discovered hfs hslash
    (resolve_isAbsolute hroot) (resolve_ne_dotdot hroot)).mp h
  have hplain := hyields.plain hfs hslash roots_plain
  obtain ⟨names',fileName',heq,-,hspared⟩ := hfs.filesUnder_spared hslash hyields.walked
  obtain ⟨rfl,-⟩ : names = names' ∧ fileName = fileName' := by
    simpa [Path.descend, List.append_inj_left'] using heq
  refine ⟨segments,hyields.start,names,?_,?_,hspared⟩
  · rw [shown, Path.parse_plain hplain, Path.parent, List.dropLast_concat]
  · exact Path.parse_plain (hplain.mono (List.subset_append_left _ _))

/-- The directories of components hold an ignored name exactly when their component roots do. -/
theorem scan_spares {report : ComponentReport}
    (h : (scan fs settings aliasPrefix stamp project).outcome.1 = .ok report) :
    (∀ c ∈ report.components, settings.walkPolicy.Spares (Path.parse c.path).parent ↔
      RootSpared settings.walkPolicy (Path.parse c.path).parent) ∧
    ∀ d ∈ report.directories, settings.walkPolicy.Spares (Path.parse d.path) ↔
      RootSpared settings.walkPolicy (Path.parse d.path) := by
  obtain ⟨root,hroot⟩ : ∃ root, fs.resolve project = .ok root := by
    rw [scan, scanUnder_outcome] at h
    cases hr : fs.resolve project with
    | error fault => rw [hr] at h; cases h
    | ok root => exact ⟨root,rfl⟩
  obtain ⟨-,rfl⟩ := (scanUnder_eq_ok_iff hroot).mp h
  constructor
  · intro c hc
    obtain ⟨segments,hs,names,hpath,-,hn⟩ :=
      discovered_named hfs hslash hroot (List.mem_mergeSort.mp hc)
    rw [hpath]
    exact spares_iff hs hn
  · intro d hd
    have htally := DirectoryCount.ofComponents_tally
      (discovered fs settings.walkPolicy aliasPrefix root)
    obtain ⟨c,hc,hpath⟩ := List.mem_map.mp ((htally.mem_iff _).mp (List.mem_map_of_mem hd))
    obtain ⟨segments,hs,names,-,hdirectory,hn⟩ := discovered_named hfs hslash hroot hc
    rw [← hpath, hdirectory]
    exact spares_iff hs hn

end Component

/-- No node of an analysis lies in an ignored directory below the one that the walk starts from, which
is the project as long as its real path is its own. A component or a component directory lies in an
ignored directory only where its component root is ignored. -/
theorem Analysis.ignored_spared {room : Nat} {options : Options} {path : String}
    {analysis : Analysis CodePoints}
    (h : (ofPath fs room settings options stamp (some path)).outcome.1 = .ok analysis) :
    (∀ graph, analysis.graph = some graph → ∃ project root start,
      Project.validate fs (some path) = .ok project ∧ fs.resolve project = .ok root ∧
      fs.resolve root = .ok start ∧
      ∀ n ∈ graph.nodes, settings.walkPolicy.SparesBelow fs root start n.directory ∧
        (start = root → settings.walkPolicy.Spares (Path.parse n.directory))) ∧
    ∀ report, analysis.components = some report →
      (∀ c ∈ report.components, settings.walkPolicy.Spares (Path.parse c.path).parent ↔
        Component.RootSpared settings.walkPolicy (Path.parse c.path).parent) ∧
      ∀ d ∈ report.directories, settings.walkPolicy.Spares (Path.parse d.path) ↔
        Component.RootSpared settings.walkPolicy (Path.parse d.path) := by
  obtain ⟨project,name,hvalid,hname,hrun⟩ := ofPath_runs h
  have hparts := hrun.symm.trans (run_outcome hname)
  cases hparts
  constructor
  · intro graph hgraph
    obtain ⟨hgraph,-⟩ := Option.filter_eq_some_iff.mp hgraph
    obtain ⟨root,start,hroot,hstart,hspared⟩ :=
      Graph.build_spares hfs hslash (toOption_eq_some hgraph)
    exact ⟨project,root,start,hvalid,hroot,hstart,hspared⟩
  · intro report hreport
    obtain ⟨hreport,-⟩ := Option.filter_eq_some_iff.mp hreport
    exact Component.scan_spares hfs hslash (toOption_eq_some hreport)

end Found

namespace Analysis

/-- A project `p` with one component, below the component root `app`. -/
def paged : FileSystem where
  entries := [(["p"],.directory), (["p","app"],.directory), (["p","app","Page.tsx"],.file [120])]
  workingDirectory := []

theorem paged_wellFormed : paged.WellFormed := by
  apply wellFormed_of_getLast?
  · simp [paged]
  · intro e he
    simp only [paged, List.mem_cons, List.not_mem_nil, or_false] at he
    rcases he with rfl | rfl | rfl <;> rfl

theorem paged_slashless : paged.Slashless := by
  intro e he
  simp only [paged, List.mem_cons, List.not_mem_nil, or_false] at he
  rcases he with rfl | rfl | rfl <;> simp

def page : Component := ⟨"Page","app/Page.tsx","app",.nonInteractive,[],1⟩

def passingOver (names : String) : Settings := { extraIgnoredDirectories := names }

theorem paged_yields (names : String) : paged.Yields (passingOver names).walkPolicy Source.isComponent
    (Path.mk .root ["p"]) Component.roots ["app"] [] "Page.tsx" "x" := by
  refine ⟨by decide,?_,by decide,rfl⟩
  rw [filesUnder, paged_wellFormed.walk_computed]
  exact List.mem_cons_self

theorem paged_analysis (room : Nat) (names : String) : ∃ analysis report,
    (ofPath paged room (passingOver names) {} "" (some "/p")).outcome.1 = .ok analysis ∧
      analysis.components = some report ∧ page ∈ report.components := by
  have hroot : paged.resolve (Path.mk .root ["p"]) = .ok (Path.mk .root ["p"]) := rfl
  have hname : Project.name paged room (Path.mk .root ["p"]) = .ok "p" := rfl
  have hclear : ∀ segments ∈ Component.roots, paged.Clear ((Path.mk .root ["p"]).descend segments) := by
    decide
  obtain ⟨report,hscan,hpage⟩ : ∃ report,
      (Component.scan paged (passingOver names) "@/" "" (Path.mk .root ["p"])).outcome.1 = .ok report ∧
      page ∈ report.components :=
    ⟨_,(Component.scanUnder_eq_ok_iff hroot).mpr ⟨hclear,rfl⟩,List.mem_mergeSort.mpr
      ((Component.mem_discovered paged_wellFormed paged_slashless rfl (by decide)).mpr
        ⟨_,_,_,_,paged_yields names,by decide⟩)⟩
  have hpath : ofPath paged room (passingOver names) {} "" (some "/p") =
      run paged room (passingOver names) {} "" (Path.mk .root ["p"]) := rfl
  refine ⟨_,report,by rw [hpath]; exact run_outcome hname,?_,hpage⟩
  refine Option.filter_eq_some_iff.mpr ⟨?_,?_⟩
  · exact congrArg Except.toOption hscan
  · simp [List.ne_nil_of_mem hpage]

/-- The component is outside the directories that are ignored, as long as `app` is not one. -/
theorem ignored_spared_paged : paged.WellFormed ∧ paged.Slashless ∧ ∃ analysis report,
    (ofPath paged 900 (passingOver "lib, page") {} "" (some "/p")).outcome.1 = .ok analysis ∧
    analysis.components = some report ∧ page ∈ report.components ∧
    (passingOver "lib, page").walkPolicy.Spares (Path.parse page.path).parent := by
  obtain ⟨analysis,report,hanalysis,hreport,hpage⟩ := paged_analysis 900 "lib, page"
  obtain ⟨-,hcomponents⟩ := ignored_spared paged_wellFormed paged_slashless hanalysis
  refine ⟨paged_wellFormed,paged_slashless,analysis,report,hanalysis,hreport,hpage,?_⟩
  exact ((hcomponents report hreport).1 page hpage).mpr (by decide)

/-- The component root `app` is walked although its name is ignored. -/
theorem ignored_root_scanned : ∃ analysis report,
    (ofPath paged 900 (passingOver "app") {} "" (some "/p")).outcome.1 = .ok analysis ∧
    analysis.components = some report ∧ page ∈ report.components ∧
    ¬ (passingOver "app").walkPolicy.Spares (Path.parse page.path).parent := by
  obtain ⟨analysis,report,hanalysis,hreport,hpage⟩ := paged_analysis 900 "app"
  exact ⟨analysis,report,hanalysis,hreport,hpage,by decide⟩

end Analysis

end WebAtlas
