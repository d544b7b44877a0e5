import WebAtlas.Proofs.Component.Scan
import WebAtlas.Proofs.Graph.Edges
import WebAtlas.Proofs.Import.LastSegment
import WebAtlas.Proofs.Import.Probing

/-! # Component dependencies and edges

A component's dependency names are the last segments of its imports, while an edge of the graph stands
for an import that resolves. If such an import leads to a component, its last segment is the name of the
component when it is written without the extension, and the component's file name when it is written
with it.
-/
namespace WebAtlas
open FileSystem

namespace Path

/-- The extension of a name is what starts at its last dot. -/
theorem splitName_append {name tail : String} (hname : name ≠ "") (htail : tail ≠ "")
    (hdot : '.' ∉ tail.toList) : splitName (name ++ "." ++ tail) = (name,"." ++ tail) := by
  have hchar : ".".toList = ['.'] := rfl
  have hreversed : (name ++ "." ++ tail).toList.reverse =
      tail.toList.reverse ++ '.' :: name.toList.reverse := by
    simp [hchar]
  have hbackwards : '.' ∉ tail.toList.reverse := fun h => hdot (List.mem_reverse.mp h)
  unfold splitName
  rw [hreversed, Text.takeWhile_ne hbackwards, Text.dropWhile_ne hbackwards]
  simp [hname, htail]

theorem splitName_join (name : String) : (splitName name).1 ++ (splitName name).2 = name := by
  unfold splitName
  split
  · rename_i front hdrop
    dsimp only
    split
    · exact String.append_empty
    · have h := List.takeWhile_append_dropWhile (p := (· ≠ '.')) (l := name.toList.reverse)
      rw [hdrop] at h
      have hname := congrArg List.reverse h
      rw [List.reverse_reverse] at hname
      refine String.toList_inj.mp (Eq.trans ?_ hname)
      simp
  · exact String.append_empty

/-- How text is added to a path does not depend on the number of slashes that it starts with. -/
theorem append_segments {p : Path} (hp : p.isAbsolute = true) (ending : String) :
    (p.append ending).segments = ((mk .root p.segments).append ending).segments := by
  obtain ⟨anchor,segments⟩ := p
  cases anchor with
  | relative => cases hp
  | root => rfl
  | doubleRoot =>
    have htext : (mk .doubleRoot segments).text = "/" ++ (mk .root segments).text := by
      rw [text_root, text, if_neg (by simp)]
      rfl
    rw [append, append, htext, String.append_assoc, parse_slash_segments]

end Path

variable {fs : FileSystem} {root file : Path} {aliasPrefix target : String}

theorem Source.isComponent_iff : isComponent file = true ↔
    (Path.splitName file.name).2 ∈ componentExtensions ∧
      Text.startsUppercase (Path.splitName file.name).1 = true := by
  rw [isComponent, Bool.and_eq_true, List.contains_iff_mem]
  rfl

/-- What stands before the extension of a component file starts with a capital, so its name does. -/
theorem Source.startsUppercase_name (h : isComponent file = true) :
    Text.startsUppercase file.name = true := by
  have hstem := (isComponent_iff.mp h).2
  unfold Text.startsUppercase at hstem ⊢
  rw [← Path.splitName_join file.name, String.toList_append]
  cases hs : (Path.splitName file.name).1.toList with
  | nil => rw [hs] at hstem; cases hstem
  | cons c rest => rw [hs] at hstem; exact hstem

namespace Import

/-- A component file that is tried for a path bears its name, perhaps without the extension. -/
theorem component_candidate {base : Path} {names : List String} {name : String}
    (hp : base.isAbsolute = true) (hs : base.segments = names ++ [name])
    (hn : Path.Plain (names ++ [name])) (hc : Source.isComponent file = true)
    (h : file ∈ candidates base) :
    file.segments.length = base.segments.length ∧
      (name = file.name ∨ name = (Path.splitName file.name).1) := by
  obtain ⟨ending,hending,rfl⟩ := List.mem_map.mp h
  have hsegments := Path.append_segments hp ending
  rw [hs] at hsegments
  have hname := hn.mono (List.subset_append_right _ _)
  rcases mem_endings hending with rfl | ⟨tail,rfl,htail,hdot,hextension⟩ | ⟨index,hindex,rfl⟩
  · rw [Path.append_snoc (by simpa using hn.written), String.append_empty] at hsegments
    refine ⟨by rw [hsegments, hs],.inl ?_⟩
    rw [Path.name, hsegments]
    simp
  · have hplain := (hn.mono (List.subset_append_left names _)).append
      (FileView.plain_extension hname hextension)
    rw [Path.append_snoc hplain.written] at hsegments
    refine ⟨by rw [hsegments, hs]; simp,.inr ?_⟩
    have hfile : (base.append ("." ++ tail)).name = name ++ "." ++ tail := by
      rw [Path.name, hsegments]
      simp [String.append_assoc]
    have hne : name ≠ "" := by
      rintro rfl
      exact absurd (hname "" List.mem_cons_self).1 (by decide)
    rw [hfile, Path.splitName_append hne htail hdot]
  · have hplain := hn.append (FileView.plain_indexFile hindex)
    rw [List.append_assoc] at hplain
    rw [Path.append_slash hplain.written] at hsegments
    have hfile : (base.append ("/" ++ index)).name = index := by
      rw [Path.name, hsegments]
      simp
    have hnone : ∀ index ∈ FileView.indexFiles,
        Text.startsUppercase (Path.splitName index).1 = false := by
      decide
    have hupper := (Source.isComponent_iff.mp hc).2
    rw [hfile, hnone index hindex] at hupper
    cases hupper

theorem base_isAbsolute {importer : Path} (hr : root.isAbsolute = true)
    (hi : importer.isAbsolute = true) : (base root importer aliasPrefix target).isAbsolute = true := by
  unfold base
  split
  · exact Path.join_isAbsolute hr _
  · exact @Path.join_isAbsolute importer.parent hi _

/-- The segments of what a specifier means are segments that some path is written with. -/
theorem base_plain {importer : Path} (hr : root.isAbsolute = true) (hi : importer.isAbsolute = true)
    (hroot : ∀ s ∈ root.segments, Path.isVoid s = false ∧ '/' ∉ s.toList)
    (himporter : ∀ s ∈ importer.segments, Path.isVoid s = false ∧ '/' ∉ s.toList) :
    Path.Plain (base root importer aliasPrefix target).segments := by
  have hjoin : ∀ dir : Path, (∀ s ∈ dir.segments, Path.isVoid s = false ∧ '/' ∉ s.toList) →
      dir.isAbsolute = true → ∀ text, Path.Plain (dir.join (Path.parse text)).normalize.segments := by
    intro dir hdir hd text s hs
    have habsolute := Path.join_isAbsolute hd (Path.parse text)
    have hwritten : Path.isVoid s = false ∧ '/' ∉ s.toList := by
      have hmem := Path.mem_of_mem_normalize habsolute hs
      unfold Path.join at hmem
      split at hmem
      · exact Path.parse_segments hmem
      · rcases List.mem_append.mp hmem with hmem | hmem
        · exact hdir s hmem
        · exact Path.parse_segments hmem
    exact ⟨hwritten.1,Path.normalize_ne_dotdot habsolute s hs,hwritten.2⟩
  unfold base
  split
  · exact hjoin root hroot hr _
  · refine hjoin importer.parent ?_ hi _
    exact fun s hs => himporter s (List.dropLast_subset _ hs)

/-- A local import that leads to a component file deep enough in the project is named after it. -/
theorem resolve_component {importer : Path} {names : List String} (hr : root.isAbsolute = true)
    (hlocal : isLocal aliasPrefix target = true)
    (h : resolve fs root importer aliasPrefix target = some file) (hc : Source.isComponent file = true)
    (hfile : file.segments = root.segments ++ names) (hdeep : 2 ≤ names.length)
    (hi : importer.isAbsolute = true) (himporter : Path.Plain importer.segments) :
    lastSegment target ∈ [".",".."] ∨ lastSegment target = file.name ∨
      lastSegment target = (Path.splitName file.name).1 := by
  have hcandidate := List.mem_of_find?_eq_some h
  obtain ⟨ending,hending,happend⟩ := List.mem_map.mp hcandidate
  have hlength : root.segments.length + 2 ≤ file.segments.length := by
    rw [hfile, List.length_append]
    omega
  have hroot : ∀ s ∈ root.segments, Path.isVoid s = false ∧ '/' ∉ s.toList := by
    intro s hs
    have hmem : s ∈ file.segments := by
      rw [hfile]
      exact List.mem_append_left _ hs
    rw [← happend] at hmem
    exact Path.parse_segments hmem
  have hplain := @base_plain root aliasPrefix target importer hr hi hroot himporter.written
  have habsolute := @base_isAbsolute root aliasPrefix target importer hr hi
  rcases List.eq_nil_or_concat (base root importer aliasPrefix target).segments with
    hempty | ⟨dir,name,hbase⟩
  · have hshort : ∀ ending ∈ endings, ((Path.mk .root []).append ending).segments.length ≤ 1 := by
      decide
    have hle := hshort ending hending
    rw [← hempty, ← Path.append_segments habsolute, happend] at hle
    omega
  · rw [List.concat_eq_append] at hbase
    rw [hbase] at hplain
    obtain ⟨hsame,hname⟩ := component_candidate habsolute hbase hplain hc hcandidate
    by_cases hdots : lastSegment target ∈ [".",".."]
    · exact .inl hdots
    · have hne : lastSegment target ≠ "." ∧ lastSegment target ≠ ".." := by simpa using hdots
      rcases base_ends hlocal hne.1 hne.2 with ⟨front,hends⟩ | hle
      · rw [hbase] at hends
        obtain ⟨-,hlast⟩ := List.append_inj' hends rfl
        rw [← (List.cons.inj hlast).1]
        exact .inr hname
      · omega

end Import

theorem Source.read?_inj {p q : Path} {text text' : String} (hp : p.isAbsolute = true)
    (hq : q.isAbsolute = true) (hsegments : p.segments = q.segments) (h : read? fs p = some text)
    (h' : read? fs q = some text') : text' = text := by
  obtain ⟨bytes,hbytes,rfl⟩ := read?_eq_some h
  obtain ⟨bytes',hbytes',rfl⟩ := read?_eq_some h'
  rw [read_inj hp hq hsegments hbytes hbytes']

section Found
variable {settings : Settings} {stamp stamp' : String} {project : Path} {maxFiles : Int} {log : Log}
  (hfs : fs.WellFormed) (hslash : fs.Slashless)
include hfs hslash

/-- A node's file has plain names all along. -/
theorem Graph.placed_plain {start : Path} {files : List Path} (hroot : fs.resolve project = .ok root)
    (hstart : fs.resolve root = .ok start)
    (hfiles : (Walk.sources fs settings.walkPolicy maxFiles start).outcome = (.ok files,log))
    {p : Placed} (h : p ∈ place fs root files) :
    p.file.isAbsolute = true ∧ Path.Plain p.file.segments := by
  obtain ⟨file,hfile,hnormal,-⟩ := mem_placeFrom ((place_files_nodup files).2 p h)
  obtain ⟨habsolute,hplain⟩ :=
    hfs.filesUnder_plain hslash (resolve_isAbsolute hroot) hstart (sources_subset hfiles hfile)
  rw [hnormal, Path.normalize_of_forall_ne fun s hs => (hplain s hs).2.1]
  exact ⟨habsolute,hplain⟩

/-- A component that is reported under the path of some file is made from that file, written perhaps
with another number of slashes at its start. -/
theorem Component.made_from {report : ComponentReport} (hroot : fs.resolve project = .ok root)
    (hscan : (scan fs settings aliasPrefix stamp project).outcome.1 = .ok report) {a : Component}
    (ha : a ∈ report.components) (hfile : file.isAbsolute = true) (hplain : Path.Plain file.segments)
    (hpath : a.path = Source.relativeName fs root file) :
    Source.isComponent file = true ∧
      (∃ names, file.segments = root.segments ++ names ∧ 2 ≤ names.length) ∧
      a.name = (Path.splitName file.name).1 ∧
      ∀ text, Source.read? fs file = some text →
        a.dependencyNames = Import.componentNames aliasPrefix text := by
  obtain ⟨-,rfl⟩ := (scanUnder_eq_ok_iff hroot).mp hscan
  obtain ⟨made,hmet,hmade⟩ := List.mem_filterMap.mp (List.mem_mergeSort.mp ha)
  obtain ⟨text,hread,rfl⟩ := mem_ofFile?.mp hmade
  obtain ⟨segments,hs,hunder⟩ := List.mem_flatMap.mp hmet
  obtain ⟨hunder,hcomponent⟩ := List.mem_filter.mp hunder
  obtain ⟨below,fileName,rfl,hbelow⟩ := hfs.filesUnder_named hslash hunder
  have hnames := (roots_plain segments hs).append hbelow
  have habsolute := resolve_isAbsolute hroot
  have hne : segments ≠ [] := by
    rintro rfl
    exact absurd hs (by decide)
  have hdescend : (root.descend segments).descend (below ++ [fileName]) =
      root.descend (segments ++ (below ++ [fileName])) := by
    rw [Path.descend, Path.descend, Path.descend, List.append_assoc]
  have hsegments : file.segments = root.segments ++ (segments ++ (below ++ [fileName])) := by
    change Source.relativeName fs root _ = _ at hpath
    rw [hdescend, Source.relativeName_descend habsolute (resolve_ne_dotdot hroot) hnames
      (by simp)] at hpath
    exact Source.segments_of_relativeName habsolute (resolve_ne_dotdot hroot) hfile hplain hnames
      (by simp) hpath.symm
  have hname : ((root.descend segments).descend (below ++ [fileName])).name = file.name := by
    rw [hdescend, Path.name, Path.name, hsegments]
    rfl
  have hsame : Source.isComponent file =
      Source.isComponent ((root.descend segments).descend (below ++ [fileName])) := by
    rw [Source.isComponent, Source.isComponent, Path.extension, Path.extension, Path.stem, Path.stem,
      hname]
  refine ⟨hsame.trans hcomponent,⟨_,hsegments,?_⟩,?_,?_⟩
  · have hlength := List.length_pos_iff.mpr hne
    simp only [List.length_append, List.length_singleton]
    omega
  · rw [← hname]
    rfl
  · intro text' hread'
    rw [hdescend] at hread
    have hmade : (root.descend (segments ++ (below ++ [fileName]))).isAbsolute = true := habsolute
    rw [Source.read?_inj hmade hfile hsegments.symm hread hread']
    rfl

/-- An edge between components comes of imports, and each of these is listed among the dependencies of
the one under the name of the other, or of its file, unless its last segment is a dot or two. -/
theorem Component.dependencies_of_edge {graph : ImportGraph} {report : ComponentReport}
    (hgraph : (Graph.build fs settings aliasPrefix maxFiles stamp project).outcome = (.ok graph,log))
    (hscan : (scan fs settings aliasPrefix stamp' project).outcome.1 = .ok report) :
    ∃ root start files, fs.resolve project = .ok root ∧ fs.resolve root = .ok start ∧
      (Walk.sources fs settings.walkPolicy maxFiles start).outcome = (.ok files,log) ∧
      graph.nodes = (Graph.place fs root files).map (·.node) ∧
      ∀ s ∈ Graph.place fs root files, ∀ t ∈ Graph.place fs root files,
        ⟨s.node.id,t.node.id⟩ ∈ graph.edges →
      ∀ a ∈ report.components, ∀ b ∈ report.components,
        a.path = Source.relativeName fs root s.file → b.path = Source.relativeName fs root t.file →
        Graph.Imports fs root aliasPrefix s t ∧
        ∀ target ∈ Graph.imports fs aliasPrefix s,
          Import.resolve fs root s.file aliasPrefix target = some t.file →
          Import.lastSegment target ∈ [".",".."] ∨
            Import.lastSegment target ∈ a.dependencyNames ∧
              Import.lastSegment target ∈ [b.name,t.file.name] := by
  obtain ⟨root,start,files,hroot,hstart,hfiles,rfl⟩ := Graph.build_eq_ok_iff.mp hgraph
  refine ⟨root,start,files,hroot,hstart,hfiles,rfl,?_⟩
  intro s hs t ht hedge a ha b hb hpath hpath'
  obtain ⟨text,hread,himports⟩ :=
    ((Graph.mem_edges_iff (Graph.place_distinct files) hs ht).mp hedge).2
  refine ⟨⟨text,hread,himports⟩,?_⟩
  intro target htarget hresolved
  obtain ⟨hfile,hplain⟩ := Graph.placed_plain hfs hslash hroot hstart hfiles hs
  obtain ⟨hfile',hplain'⟩ := Graph.placed_plain hfs hslash hroot hstart hfiles ht
  obtain ⟨-,-,-,hdependencies⟩ := made_from hfs hslash hroot hscan ha hfile hplain hpath
  obtain ⟨hcomponent,⟨names,hsegments,hdeep⟩,hname,-⟩ :=
    made_from hfs hslash hroot hscan hb hfile' hplain' hpath'
  rw [Graph.imports, hread] at htarget
  have hlocal := (List.mem_filter.mp htarget).2
  rcases Import.resolve_component (resolve_isAbsolute hroot) hlocal hresolved hcomponent hsegments hdeep
    hfile hplain with hdots | hlast
  · exact .inl hdots
  · have hupper : Text.startsUppercase (Import.lastSegment target) = true := by
      rcases hlast with hlast | hlast
      · rw [hlast]
        exact Source.startsUppercase_name hcomponent
      · rw [hlast]
        exact (Source.isComponent_iff.mp hcomponent).2
    refine .inr ⟨?_,?_⟩
    · rw [hdependencies text hread, Import.componentNames, List.mem_eraseDups, List.mem_filter]
      exact ⟨List.mem_map_of_mem htarget,hupper⟩
    · rcases hlast with hlast | hlast
      · simp [hlast]
      · simp [hlast, hname]

end Found

namespace Component

/-- A project `p` with two components, of which the first has the given text. -/
def couple (text : String) : FileSystem where
  entries := [(["p"],.directory), (["p","components"],.directory),
    (["p","components","A.tsx"],.file (Graph.ring.bytesOf text)), (["p","components","B.tsx"],.file [])]
  workingDirectory := []

theorem couple_wellFormed (text : String) : (couple text).WellFormed := by
  apply wellFormed_of_getLast?
  · simp [couple]
  · intro e he
    simp only [couple, List.mem_cons, List.not_mem_nil, or_false] at he
    rcases he with rfl | rfl | rfl | rfl <;> rfl

theorem couple_slashless (text : String) : (couple text).Slashless := by
  intro e he
  simp only [couple, List.mem_cons, List.not_mem_nil, or_false] at he
  rcases he with rfl | rfl | rfl | rfl <;> simp

def coupleRoot : Path := Path.mk .root ["p"]

def coupleFiles : List Path :=
  [coupleRoot.descend ["components","A.tsx"],coupleRoot.descend ["components","B.tsx"]]

/-- Three spellings of one import. -/
def spellings : List String := ["import './B'","import './B.tsx'","import './B/.'"]

theorem couple_walk : ∀ text ∈ spellings,
    (couple text).walk ({} : Settings).walkPolicy coupleRoot = .ok (coupleFiles.map .file) := by
  simp only [(couple_wellFormed _).walk_computed]
  decide +kernel

theorem couple_filesUnder : ∀ text ∈ spellings, (couple text).filesUnder ({} : Settings).walkPolicy
    (coupleRoot.descend ["components"]) = coupleFiles := by
  simp only [filesUnder, (couple_wellFormed _).walk_computed]
  decide +kernel

theorem couple_read : ∀ text ∈ spellings,
    Source.read? (couple text) (coupleRoot.descend ["components","A.tsx"]) = some text := by
  decide +kernel

theorem couple_place : ∀ text ∈ spellings,
    (Graph.place (couple text) coupleRoot coupleFiles).map (fun p => (p.file,p.node)) =
      [(coupleRoot.descend ["components","A.tsx"],⟨"components_A","A","components",.component⟩),
        (coupleRoot.descend ["components","B.tsx"],⟨"components_B","B","components",.component⟩)] := by
  decide +kernel

theorem couple_edges : ∀ text ∈ spellings,
    Graph.edges (couple text) coupleRoot "@/" (Graph.place (couple text) coupleRoot coupleFiles) =
      [⟨"components_A","components_B"⟩] := by
  decide +kernel

theorem couple_sources {text : String} (ht : text ∈ spellings) :
    (Walk.sources (couple text) ({} : Settings).walkPolicy 500 coupleRoot).outcome =
      (.ok coupleFiles,[]) := by
  rw [Walk.sources_outcome (couple_walk text ht)]
  rfl

def importing (text : String) : Component := shown "@/" ["components"] [] "A.tsx" text

def imported : Component := shown "@/" ["components"] [] "B.tsx" ""

/-- Whichever way the import is spelled, it gives an edge between two components. -/
theorem couple_reports {text : String} (ht : text ∈ spellings) : ∃ graph report,
    (Graph.build (couple text) {} "@/" 500 "" coupleRoot).outcome = (.ok graph,[]) ∧
    (scan (couple text) {} "@/" "" coupleRoot).outcome.1 = .ok report ∧
    ⟨"components_A","components_B"⟩ ∈ graph.edges ∧ importing text ∈ report.components ∧
    imported ∈ report.components := by
  have hroot : (couple text).resolve coupleRoot = .ok coupleRoot := rfl
  obtain ⟨graph,hgraph,hedge⟩ : ∃ graph,
      (Graph.build (couple text) {} "@/" 500 "" coupleRoot).outcome = (.ok graph,[]) ∧
      ⟨"components_A","components_B"⟩ ∈ graph.edges := by
    refine ⟨_,Graph.build_eq_ok_iff.mpr ⟨coupleRoot,coupleRoot,coupleFiles,hroot,hroot,
      couple_sources ht,rfl⟩,?_⟩
    dsimp only
    rw [couple_edges text ht]
    exact List.mem_singleton_self _
  have hclear : ∀ segments ∈ roots, (couple text).Clear (coupleRoot.descend segments) := by
    intro segments hs
    simp only [roots, List.mem_cons, List.not_mem_nil, or_false] at hs
    rcases hs with rfl | rfl | rfl | rfl <;> exact nofun
  have hmet : ∀ fileName read, coupleRoot.descend ["components",fileName] ∈ coupleFiles →
      Source.isComponent (coupleRoot.descend ["components",fileName]) = true →
      Source.read? (couple text) (coupleRoot.descend ["components",fileName]) = some read →
      shown "@/" ["components"] [] fileName read ∈
        discovered (couple text) ({} : Settings).walkPolicy "@/" coupleRoot := by
    intro fileName read hfile haccepted hread
    refine (mem_discovered (couple_wellFormed text) (couple_slashless text) rfl (by decide)).mpr
      ⟨["components"],[],fileName,read,⟨by decide,?_,haccepted,hread⟩,rfl⟩
    rw [couple_filesUnder text ht]
    exact hfile
  obtain ⟨report,hscan,hmem⟩ : ∃ report,
      (scan (couple text) {} "@/" "" coupleRoot).outcome.1 = .ok report ∧
      ∀ c ∈ discovered (couple text) ({} : Settings).walkPolicy "@/" coupleRoot, c ∈ report.components :=
    ⟨_,(scanUnder_eq_ok_iff hroot).mpr ⟨hclear,rfl⟩,fun _ => List.mem_mergeSort.mpr⟩
  exact ⟨graph,report,hgraph,hscan,hedge,
    hmem _ (hmet "A.tsx" text (by decide) (by decide) (couple_read text ht)),
    hmem _ (hmet "B.tsx" "" (by decide) (by decide) rfl)⟩

/-- The import without the extension is listed under the name of the component. -/
theorem dependencies_of_edge_couple : (couple "import './B'").WellFormed ∧
    (couple "import './B'").Slashless ∧ ∃ graph report,
    (Graph.build (couple "import './B'") {} "@/" 500 "" coupleRoot).outcome = (.ok graph,[]) ∧
    (scan (couple "import './B'") {} "@/" "" coupleRoot).outcome.1 = .ok report ∧
    ⟨"components_A","components_B"⟩ ∈ graph.edges ∧ importing "import './B'" ∈ report.components ∧
    imported ∈ report.components ∧ imported.name ∈ (importing "import './B'").dependencyNames := by
  have hfs := couple_wellFormed "import './B'"
  have hslash := couple_slashless "import './B'"
  obtain ⟨graph,report,hgraph,hscan,hedge,ha,hb⟩ :=
    @couple_reports "import './B'" (by decide)
  refine ⟨hfs,hslash,graph,report,hgraph,hscan,hedge,ha,hb,?_⟩
  obtain ⟨root,start,files,hroot,hstart,hfiles,-,hnamed⟩ := dependencies_of_edge hfs hslash hgraph hscan
  obtain rfl : coupleRoot = root := Except.ok.inj hroot
  obtain rfl : coupleRoot = start := Except.ok.inj hstart
  obtain rfl : coupleFiles = files := by
    rw [couple_sources (by decide)] at hfiles
    exact Except.ok.inj (Prod.mk.inj hfiles).1
  have hplace := couple_place "import './B'" (by decide)
  obtain ⟨s,hs,hsource⟩ : ∃ s ∈ Graph.place (couple "import './B'") coupleRoot coupleFiles,
      (s.file,s.node) = (coupleRoot.descend ["components","A.tsx"],
        ⟨"components_A","A","components",.component⟩) :=
    List.mem_map.mp (hplace ▸ List.mem_cons_self)
  obtain ⟨t,ht,htarget⟩ : ∃ t ∈ Graph.place (couple "import './B'") coupleRoot coupleFiles,
      (t.file,t.node) = (coupleRoot.descend ["components","B.tsx"],
        ⟨"components_B","B","components",.component⟩) :=
    List.mem_map.mp (hplace ▸ List.mem_cons_of_mem _ List.mem_cons_self)
  obtain ⟨hsfile,hsnode⟩ := Prod.mk.inj hsource
  obtain ⟨htfile,htnode⟩ := Prod.mk.inj htarget
  obtain ⟨-,himports⟩ := hnamed s hs t ht (by rw [hsnode, htnode]; exact hedge) _ ha _ hb
    (by rw [hsfile]; decide +kernel) (by rw [htfile]; decide +kernel)
  have hread : Graph.imports (couple "import './B'") "@/" s = ["./B"] := by
    rw [Graph.imports, hsfile, couple_read _ (by decide)]
    rfl
  have hresolve : Import.resolve (couple "import './B'") coupleRoot s.file "@/" "./B" = some t.file := by
    rw [hsfile, htfile]
    decide +kernel
  rcases himports "./B" (hread ▸ List.mem_singleton_self _) hresolve with hdots | ⟨hnames,-⟩
  · exact absurd hdots (by decide)
  · exact hnames

/-- The graph has an edge to a component whose name is not among the dependencies of the other. -/
def EdgeUnnamed (text : String) : Prop := ∃ graph report,
  (Graph.build (couple text) {} "@/" 500 "" coupleRoot).outcome = (.ok graph,[]) ∧
  (scan (couple text) {} "@/" "" coupleRoot).outcome.1 = .ok report ∧
  ⟨"components_A","components_B"⟩ ∈ graph.edges ∧ importing text ∈ report.components ∧
  imported ∈ report.components ∧ imported.name ∉ (importing text).dependencyNames

theorem edgeUnnamed_of_not_mem {text : String} (htext : text ∈ spellings)
    (h : imported.name ∉ (importing text).dependencyNames) : EdgeUnnamed text := by
  obtain ⟨graph,report,hgraph,hscan,hedge,ha,hb⟩ := couple_reports htext
  exact ⟨graph,report,hgraph,hscan,hedge,ha,hb,h⟩

/-- An import written with the extension, or with a dot behind its last slash, gives an edge without the
name of the component among the dependencies. -/
theorem edge_without_dependency : EdgeUnnamed "import './B.tsx'" ∧ EdgeUnnamed "import './B/.'" :=
  ⟨edgeUnnamed_of_not_mem (by decide) (by decide +kernel),
    edgeUnnamed_of_not_mem (by decide) (by decide +kernel)⟩

end Component
end WebAtlas
