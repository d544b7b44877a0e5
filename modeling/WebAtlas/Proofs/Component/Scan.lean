import WebAtlas.Proofs.FileSystem.RealPath
import WebAtlas.Proofs.Project.Analysis
import WebAtlas.Proofs.Repetitions
import WebAtlas.Proofs.Sorting
import WebAtlas.Proofs.Walk.Evaluation
import WebAtlas.Proofs.Walk.Roots
import Mathlib.Algebra.BigOperators.Ring.Finset

/-! # The components of a project

A scan gives one component for each readable component file below a component root, and no other. The
directories it lists are those of the components, each once and with the number of its components.
There is no report at all when a component root cannot even be tested.
-/
namespace WebAtlas

/-- The directories listed are those of the components, counted. -/
structure DirectoryCount.Tally (components : List Component) (directories : List DirectoryCount) :
    Prop where
  distinct : (directories.map (·.path)).Nodup
  mem_iff : ∀ path, path ∈ directories.map (·.path) ↔ path ∈ components.map (·.directory)
  counted : ∀ d ∈ directories,
    d = ⟨d.path,labelOf d.path,components.countP (·.directory = d.path)⟩
  total : (directories.map (·.count)).sum = components.length
  sorted : directories.Pairwise fun a b =>
    b.count < a.count ∨ a.count = b.count ∧ a.path ≤ b.path

namespace DirectoryCount
variable {components components' : List Component} {directories : List DirectoryCount}

theorem sortsBy_before : SortsBy before (fun d => OrderDual.toDual d.count) (·.path) := by
  intro a b
  unfold before
  split <;> simp_all

theorem Tally.of_perm (h : Tally components directories) (hperm : components'.Perm components) :
    Tally components' directories where
  distinct := h.distinct
  mem_iff path := by rw [h.mem_iff, (hperm.map _).mem_iff]
  counted d hd := by rw [hperm.countP_eq]; exact h.counted d hd
  total := by rw [h.total, hperm.length_eq]
  sorted := h.sorted

theorem ofComponents_tally (components : List Component) : Tally components (ofComponents components) := by
  let listed := (components.map (·.directory)).eraseDups
  have hperm : (ofComponents components).Perm
      (listed.map fun d => ⟨d,labelOf d,(components.map (·.directory)).count d⟩) :=
    List.mergeSort_perm _ _
  have hpaths := hperm.map (·.path)
  rw [List.map_map, Function.comp_def, List.map_id'] at hpaths
  constructor
  · exact hpaths.nodup_iff.mpr (nodup_eraseDups _)
  · intro path
    rw [hpaths.mem_iff, List.mem_eraseDups]
  · intro d hd
    obtain ⟨path,-,rfl⟩ := List.mem_map.mp (hperm.mem_iff.mp hd)
    rw [List.count, List.countP_map]
    simp [Function.comp_def, Bool.beq_eq_decide_eq]
  · have hsum := sum_count_eraseDups (components.map (·.directory))
    rw [List.length_map] at hsum
    rw [(hperm.map _).sum_eq, ← hsum, Nat.cast_list_sum, List.map_map, List.map_map]
    rfl
  · exact sortsBy_before.sorted _

end DirectoryCount

theorem Source.read?_eq_some {fs : FileSystem} {file : Path} {text : String}
    (h : read? fs file = some text) : ∃ bytes, fs.read file = .ok bytes ∧ text = textOf bytes := by
  unfold read? at h
  cases hread : fs.read file with
  | error fault => simp [hread] at h
  | ok bytes =>
    simp only [hread, Option.some.injEq] at h
    exact ⟨bytes,rfl,h.symm⟩

namespace Component
open FileSystem
variable {fs : FileSystem} {policy : WalkPolicy} {aliasPrefix stamp : String}
  {project root file : Path} {segments names : List String} {fileName text : String}
  {component : Component}

/-- The component of a file `names` below the component root at `segments`. -/
def shown (aliasPrefix : String) (segments names : List String) (fileName text : String) : Component :=
  ⟨(Path.splitName fileName).1,"/".intercalate (segments ++ names ++ [fileName]),
    "/".intercalate (segments ++ names),ExecutionContext.infer text,
    Import.componentNames aliasPrefix text,Source.lineCount text⟩

/-- The components in the order in which they are found. -/
def discovered (fs : FileSystem) (policy : WalkPolicy) (aliasPrefix : String) (root : Path) :
    List Component :=
  (fs.filesMet policy Source.isComponent root roots).filterMap (ofFile? fs aliasPrefix root)

structure Complete (fs : FileSystem) (policy : WalkPolicy) (aliasPrefix : String) (root : Path)
    (components : List Component) : Prop where
  mem_iff : ∀ component, component ∈ components ↔ ∃ segments names fileName text,
    fs.Yields policy Source.isComponent root roots segments names fileName text ∧
    shown aliasPrefix segments names fileName text = component
  distinct : (components.map (·.path)).Nodup
  sorted : components.Pairwise fun a b =>
    a.directory < b.directory ∨ a.directory = b.directory ∧ a.name ≤ b.name

theorem sortsBy_before : SortsBy before (·.directory) (·.name) := by
  intro a b
  unfold before
  split <;> simp_all

theorem roots_plain : ∀ segments ∈ roots, Path.Plain segments := by decide

theorem roots_apart : roots.Pairwise fun a b => ¬ a <+: b ∧ ¬ b <+: a := by decide

theorem ofText_shown (hs : segments ∈ roots) (hn : Path.Plain (segments ++ names ++ [fileName])) :
    ofText aliasPrefix (root.descend (segments ++ names ++ [fileName])).stem
      ("/".intercalate (segments ++ names ++ [fileName])) text =
        shown aliasPrefix segments names fileName text := by
  have hne : segments ≠ [] := by
    rintro rfl
    exact absurd hs (by decide)
  have hdirectory : (Path.parse ("/".intercalate (segments ++ names ++ [fileName]))).parent.text =
      "/".intercalate (segments ++ names) := by
    rw [Path.parse_plain hn, Path.parent, List.dropLast_concat, Path.text_relative (by simp [hne])]
  have hstem : (root.descend (segments ++ names ++ [fileName])).stem = (Path.splitName fileName).1 := by
    simp [Path.stem, Path.name, Path.descend]
  rw [ofText, hdirectory, hstem]
  rfl

theorem mem_ofFile? : ofFile? fs aliasPrefix root file = some component ↔
    ∃ text, Source.read? fs file = some text ∧
      ofText aliasPrefix file.stem (Source.relativeName fs root file) text = component :=
  Option.map_eq_some_iff

section Found
variable (hfs : fs.WellFormed) (hslash : fs.Slashless) (ha : root.isAbsolute = true)
  (hroot : ∀ s ∈ root.segments, s ≠ "..")
include hfs hslash ha hroot

theorem mem_discovered : component ∈ discovered fs policy aliasPrefix root ↔
    ∃ segments names fileName text,
      fs.Yields policy Source.isComponent root roots segments names fileName text ∧
      shown aliasPrefix segments names fileName text = component := by
  rw [discovered, List.mem_filterMap]
  simp only [mem_ofFile?]
  rw [hfs.exists_yields_iff hslash]
  refine exists_congr fun segments => exists_congr fun names => exists_congr fun fileName =>
    exists_congr fun text => and_congr_right fun h => ?_
  have hplain := h.plain hfs hslash roots_plain
  rw [Source.relativeName_descend ha hroot hplain (by simp), ofText_shown h.start hplain]

theorem discovered_nodup : ((discovered fs policy aliasPrefix root).map (·.path)).Nodup := by
  have hnames := List.pairwise_map.mp
    (@WellFormed.relativeName_nodup fs policy root Source.isComponent roots hfs hslash roots_plain
      roots_apart ha hroot)
  refine List.pairwise_map.mpr (hnames.filterMap _ ?_)
  intro file file' hne component h component' h'
  obtain ⟨text,-,rfl⟩ := mem_ofFile?.mp h
  obtain ⟨text',-,rfl⟩ := mem_ofFile?.mp h'
  exact hne

theorem complete_sorted :
    Complete fs policy aliasPrefix root ((discovered fs policy aliasPrefix root).mergeSort before) where
  mem_iff component := by rw [List.mem_mergeSort, mem_discovered hfs hslash ha hroot]
  distinct :=
    ((List.mergeSort_perm _ _).map _).nodup_iff.mpr (discovered_nodup hfs hslash ha hroot)
  sorted := sortsBy_before.sorted _

end Found

theorem scanUnder_eq_ok_iff (hproject : fs.resolve project = .ok root) {report : ComponentReport} :
    (scanUnder fs policy aliasPrefix stamp project).outcome.1 = .ok report ↔
      (∀ segments ∈ roots, fs.Clear (root.descend segments)) ∧
      report = ⟨(discovered fs policy aliasPrefix root).mergeSort before,
        DirectoryCount.ofComponents (discovered fs policy aliasPrefix root),root.text,stamp⟩ := by
  rw [scanUnder_outcome, hproject]
  exact Walk.map_filesBelow_eq_ok_iff

/-- There is a report exactly when every component root can be tested, and every report is complete
and counts its components. -/
theorem scanUnder_complete (hfs : fs.WellFormed) (hslash : fs.Slashless)
    (hproject : fs.resolve project = .ok root) :
    ((∃ report, (scanUnder fs policy aliasPrefix stamp project).outcome.1 = .ok report) ↔
      ∀ segments ∈ roots, fs.Clear (root.descend segments)) ∧
    ∀ report, (scanUnder fs policy aliasPrefix stamp project).outcome.1 = .ok report →
      Complete fs policy aliasPrefix root report.components ∧
      DirectoryCount.Tally report.components report.directories ∧
      report.projectPath = root.text ∧ report.generatedAt = stamp := by
  have ha := resolve_isAbsolute hproject
  have hroot := resolve_ne_dotdot hproject
  constructor
  · constructor
    · rintro ⟨report,h⟩
      exact ((scanUnder_eq_ok_iff hproject).mp h).1
    · intro hclear
      exact ⟨_,(scanUnder_eq_ok_iff hproject).mpr ⟨hclear,rfl⟩⟩
  · intro report h
    obtain ⟨-,rfl⟩ := (scanUnder_eq_ok_iff hproject).mp h
    have htally := DirectoryCount.ofComponents_tally (discovered fs policy aliasPrefix root)
    exact ⟨complete_sorted hfs hslash ha hroot,htally.of_perm (List.mergeSort_perm _ _),rfl,rfl⟩

/-- A project `p` with one component, and with `app` as given. -/
def oneButton (app : Entry) : FileSystem where
  entries := [(["p"],.directory), (["p","app"],app), (["p","components"],.directory),
    (["p","components","Button.tsx"],.file [98])]
  workingDirectory := []

theorem oneButton_wellFormed (app : Entry) : (oneButton app).WellFormed := by
  apply wellFormed_of_getLast?
  · simp [oneButton]
  · intro e he
    simp only [oneButton, List.mem_cons, List.not_mem_nil, or_false] at he
    rcases he with rfl | rfl | rfl | rfl <;> rfl

theorem oneButton_slashless (app : Entry) : (oneButton app).Slashless := by
  intro e he
  simp only [oneButton, List.mem_cons, List.not_mem_nil, or_false] at he
  rcases he with rfl | rfl | rfl | rfl <;> simp

theorem oneButton_resolve (app : Entry) :
    (oneButton app).resolve (Path.parse "/p") = .ok (Path.mk .root ["p"]) := rfl

theorem oneButton_yields (app : Entry) : (oneButton app).Yields ⟨["dist"],4⟩ Source.isComponent
    (Path.mk .root ["p"]) roots ["components"] [] "Button.tsx" "b" := by
  refine ⟨by decide,?_,by decide,rfl⟩
  rw [filesUnder, (oneButton_wellFormed app).walk_computed]
  exact List.mem_cons_self

/-- The one component is reported and its directory counted, `app` being a directory. -/
theorem scanUnder_oneButton : (oneButton .directory).WellFormed ∧ (oneButton .directory).Slashless ∧
    (oneButton .directory).resolve (Path.parse "/p") = .ok (Path.mk .root ["p"]) ∧
    ∃ report, (scanUnder (oneButton .directory) ⟨["dist"],4⟩ "@/" "" (Path.parse "/p")).outcome.1 =
        .ok report ∧
      (⟨"Button","components/Button.tsx","components",.nonInteractive,[],1⟩ : Component) ∈
        report.components ∧
      "components" ∈ report.directories.map (·.path) ∧
      (report.directories.map (·.count)).sum = report.components.length := by
  have hscan := @scanUnder_complete (oneButton .directory) ⟨["dist"],4⟩ "@/" "" (Path.parse "/p")
    (Path.mk .root ["p"]) (oneButton_wellFormed _) (oneButton_slashless _) (oneButton_resolve _)
  obtain ⟨report,hreport⟩ := hscan.1.mpr (by decide)
  obtain ⟨hcomplete,htally,-⟩ := hscan.2 report hreport
  have hbutton : (⟨"Button","components/Button.tsx","components",.nonInteractive,[],1⟩ : Component) ∈
      report.components :=
    (hcomplete.mem_iff _).mpr ⟨_,_,_,_,oneButton_yields .directory,by decide⟩
  refine ⟨oneButton_wellFormed _,oneButton_slashless _,oneButton_resolve _,report,hreport,hbutton,?_,
    htally.total⟩
  exact (htally.mem_iff _).mpr (List.mem_map.mpr ⟨_,hbutton,rfl⟩)

/-- A link `app` to a name that is too long hides every component of the project. -/
theorem scanUnder_overlong_link : (oneButton (.link overlong)).WellFormed ∧
    (oneButton (.link overlong)).Slashless ∧
    (oneButton (.link overlong)).resolve (Path.parse "/p") = .ok (Path.mk .root ["p"]) ∧
    (oneButton (.link overlong)).Yields ⟨["dist"],4⟩ Source.isComponent (Path.mk .root ["p"]) roots
      ["components"] [] "Button.tsx" "b" ∧
    ∀ report, (scanUnder (oneButton (.link overlong)) ⟨["dist"],4⟩ "@/" "" (Path.parse "/p")).outcome.1 ≠
      .ok report := by
  have hp : (oneButton (.link overlong)).IsReal ["p"] := isReal_nil.snoc (by decide) rfl
  have happ : FileSystem.entry? (oneButton (.link overlong)) (["p"] ++ ["app"]) =
      some (.link overlong) := rfl
  have hstatus := @status_of_overlong_link _ ["p"] [] _ _ _ hp (by decide) happ pieces_overlong
    unfit_overlong
  refine ⟨oneButton_wellFormed _,oneButton_slashless _,oneButton_resolve _,oneButton_yields _,?_⟩
  intro report hreport
  obtain ⟨hclear,-⟩ := (scanUnder_eq_ok_iff (oneButton_resolve _)).mp hreport
  exact absurd (hclear ["app"] (by decide)) (not_clear_iff.mpr ⟨hstatus,by decide⟩)

end Component
end WebAtlas
